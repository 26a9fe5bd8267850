import Rbis.Sched.BeamOrder
import Rbis.Sched.HarqEntity

/-! # HARQ in the downlink

The HARQ side of `DoSchedDlTriggerReq` in a cell of one beam, slot after slot, with UEs that come
and, without a put-off retransmission, go.  The feedback of a slot is any feedback of UEs that are
there: late, repeated, or about processes that wait for a retransmission.  In all such runs no
assertion fails, the retransmissions of a slot fit into the symbols that are left for them, the
transmissions of a process are those of one transport block after the other, each at most
`maxHarqReTx + 1` times (`transmissions_dl`), and a process that is neither sent nor put off for
`numHarqProcess + 1` slots is free (`freed_dl`). -/

namespace Rbis

open Journal UeHarqMap

/-! ### The RBGs of a retransmission -/

theorem takeRbgs_ok : ∀ {bitmask rbgBitmask : List Bool}, bitmask.length = rbgBitmask.length →
    ∃ r, takeRbgs bitmask rbgBitmask = .ok r ∧ ∀ b, r = some b → b.length = bitmask.length
  | [], _, _ => ⟨some [], rfl, fun b hb => by cases hb; rfl⟩
  | free :: bitmask, used :: rbgBitmask, h => by
      obtain ⟨r, h1, h2⟩ := takeRbgs_ok (Nat.succ.inj h)
      have hmap : ∀ (x : Bool) (b : List Bool), r.map (x :: ·) = some b →
          b.length = (free :: bitmask).length := by
        intro x b hb
        obtain ⟨c, hc, rfl⟩ := Option.map_eq_some_iff.mp hb
        exact congrArg Nat.succ (h2 c hc)
      rw [takeRbgs, h1]
      cases used with
      | true =>
          cases free with
          | true => exact ⟨_, rfl, hmap false⟩
          | false => exact ⟨none, rfl, fun b hb => by cases hb⟩
      | false => exact ⟨_, rfl, hmap free⟩

theorem subUint8_of_le {a b : ℕ} (h : b ≤ a) (ha : a < 256) : subUint8 a b = a - b := by
  unfold subUint8
  omega

/-! ### The symbols of a beam -/

section Symbols

variable {sym n : ℕ} {l : List VarTtiAllocInfo}

theorem foldl_largest (hsym : sym + n < 256)
    (hl : ∀ a ∈ l, a.dci.symStart = sym ∧ a.dci.numSym ≤ n) : ∀ {m : ℕ}, sym ≤ m → m ≤ sym + n →
    ∃ used ≤ n, l.foldl (fun m a => if m < a.dci.symStart + a.dci.numSym then
      (a.dci.symStart + a.dci.numSym) % 256 else m) m = sym + used := by
  induction l with
  | nil => exact fun {m} h1 h2 => ⟨m - sym, by omega, by simp; omega⟩
  | cons a l ih =>
      intro m h1 h2
      obtain ⟨hstart, hnum⟩ := hl a List.mem_cons_self
      have hwrap : (sym + a.dci.numSym) % 256 = sym + a.dci.numSym := Nat.mod_eq_of_lt (by omega)
      rw [List.foldl_cons, hstart, hwrap]
      split
      · exact ih (fun b hb => hl b (List.mem_cons_of_mem a hb)) (by omega) (by omega)
      · exact ih (fun b hb => hl b (List.mem_cons_of_mem a hb)) h1 h2

theorem foldl_smallest (hl : ∀ a ∈ l, a.dci.symStart = sym) :
    l.foldl (fun m a => min m a.dci.symStart) sym = sym := by
  induction l with
  | nil => rfl
  | cons a l ih =>
      rw [List.foldl_cons, hl a List.mem_cons_self, min_self]
      exact ih fun b hb => hl b (List.mem_cons_of_mem a hb)

theorem countUsedSymbols_ok (hsym : sym + n < 255)
    (hl : ∀ a ∈ l, a.dci.symStart = sym ∧ a.dci.numSym ≤ n) :
    ∃ used, countUsedSymbols sym l = .ok used ∧ used ≤ n := by
  cases l with
  | nil => exact ⟨0, rfl, n.zero_le⟩
  | cons a l =>
      obtain ⟨used, hused, hlargest⟩ := foldl_largest (by omega) hl le_rfl (Nat.le_add_right sym n)
      have hsmallest : (a :: l).foldl (fun m a => min m a.dci.symStart) 255 = sym := by
        rw [List.foldl_cons, (hl a List.mem_cons_self).1, min_eq_right (by omega)]
        exact foldl_smallest fun b hb => (hl b (List.mem_cons_of_mem a hb)).1
      refine ⟨used, ?_, hused⟩
      rw [countUsedSymbols, if_neg (List.cons_ne_nil a l)]
      dsimp only
      rw [hsmallest, hlargest, if_neg (by omega), subUint8_of_le (by omega) (by omega)]
      congr 1
      omega

end Symbols

/-! ### The loop over the processes of a beam -/

section Loop

variable {C : DlHarqConfig} {bw x : ℕ} {log : List DciInfoElementTdma} {fb : List HarqInfo}

theorem bufferHARQFeedback_ok {k : ℕ × ℕ} (hk : ∃ f ∈ fb, f.key = k) {dci : DciInfoElementTdma}
    (hdci : dci.key = k) (s : DlHarqLoop) :
    ∃ f ∈ fb, f.key = k ∧ bufferHARQFeedback fb dci s =
      .ok { s with dlHarqToRetransmit := s.dlHarqToRetransmit ++ [f] } := by
  obtain ⟨f, hf, hfk⟩ := hk
  have hsome : (fb.find? fun f => f.rnti = dci.rnti ∧ f.harqProcessId = dci.harqProcess).isSome := by
    refine List.find?_isSome.mpr ⟨f, hf, decide_eq_true ?_⟩
    exact Prod.ext_iff.mp (hfk.trans hdci.symm)
  obtain ⟨g, hg⟩ := Option.isSome_iff_exists.mp hsome
  refine ⟨g, List.mem_of_find?_eq_some hg, ?_, ?_⟩
  · have hkey : g.rnti = dci.rnti ∧ g.harqProcessId = dci.harqProcess :=
      of_decide_eq_true (List.find?_some (p := fun f : HarqInfo => decide
        (f.rnti = dci.rnti ∧ f.harqProcessId = dci.harqProcess)) hg)
    exact (Prod.ext hkey.1 hkey.2).trans hdci
  · rw [bufferHARQFeedback, hg]

/-- A process is put off, and its DCI may be moved, or it is sent. -/
theorem retransmitDl_cases {k : ℕ × ℕ} (hfb : ∃ f ∈ fb, f.key = k) {s : DlHarqLoop}
    (hknown : s.ues.Known k) (hbitmask : s.dlBitmask.length = bw)
    (hp : Nacked .dl bw x k (s.ues.process k)) :
    ∃ dci, (s.ues.process k).dciElement = some dci ∧ dci.key = k ∧
      ((∃ f ∈ fb, f.key = k ∧ ∃ q, (q = (s.ues.process k).restart ∨
          q = (s.ues.process k).restart.setDci { dci with symStart := s.currStartingSymbol }) ∧
        retransmitDl C fb s k = .ok { s with
          ues := s.ues.put k q, dlHarqToRetransmit := s.dlHarqToRetransmit ++ [f] }) ∨
      ∃ bitmask, bitmask.length = bw ∧ takeRbgs s.dlBitmask dci.rbgBitmask = .ok (some bitmask) ∧
        dci.rnti ∉ s.allocatedUe ∧ dci.numSym ≤ s.symAvail ∧
        retransmitDl C fb s k = .ok { s with
          ues := s.ues.put k
            ((s.ues.process k).restart.setDci (dci.reTx s.currStartingSymbol))
          symAvail := subUint8 s.symAvail dci.numSym
          dlBitmask := bitmask
          allocatedUe := s.allocatedUe ++ [dci.rnti]
          varTtiAllocInfo := s.varTtiAllocInfo ++
            [⟨dci.reTx s.currStartingSymbol, (s.ues.process k).rlcPduInfo⟩] }) := by
  obtain ⟨dci, hdci, hof, hrv⟩ := hp.dci
  obtain ⟨r, hr, hlength⟩ := takeRbgs_ok (hbitmask.trans hof.rbgs.symm)
  have hbuffer : ∀ (d : DciInfoElementTdma) (q : HarqProcess), d.key = k → ∃ f ∈ fb, f.key = k ∧
      bufferHARQFeedback fb d { s with ues := s.ues.put k q } = .ok { s with
        ues := s.ues.put k q, dlHarqToRetransmit := s.dlHarqToRetransmit ++ [f] } :=
    fun d q hd => bufferHARQFeedback_ok hfb hd _
  refine ⟨dci, hdci, hof.key, ?_⟩
  simp only [retransmitDl, find_eq hknown, Fallible.ok_bind, hp.status, ne_eq, not_true_eq_false,
    if_false, hdci]
  by_cases hue : dci.rnti ∈ s.allocatedUe
  · rw [if_pos hue]
    obtain ⟨f, hf, hfk, heq⟩ := hbuffer dci (s.ues.process k).restart hof.key
    exact .inl ⟨f, hf, hfk, _, .inl rfl, heq⟩
  rw [if_neg hue]
  split
  · obtain ⟨f, hf, hfk, heq⟩ := hbuffer dci (s.ues.process k).restart hof.key
    exact .inl ⟨f, hf, hfk, _, .inl rfl, heq⟩
  split
  · obtain ⟨f, hf, hfk, heq⟩ := hbuffer dci (s.ues.process k).restart hof.key
    exact .inl ⟨f, hf, hfk, _, .inl rfl, heq⟩
  rw [hr, Fallible.ok_bind]
  cases r with
  | none =>
      obtain ⟨f, hf, hfk, heq⟩ := hbuffer dci (s.ues.process k).restart hof.key
      exact .inl ⟨f, hf, hfk, _, .inl rfl, heq⟩
  | some bitmask =>
      dsimp only
      rw [put_put, put_put]
      by_cases hsym : s.symAvail < dci.numSym
      · rw [if_pos hsym]
        obtain ⟨f, hf, hfk, heq⟩ := hbuffer { dci with symStart := s.currStartingSymbol }
          ((s.ues.process k).restart.setDci { dci with symStart := s.currStartingSymbol }) hof.key
        exact .inl ⟨f, hf, hfk, _, .inr rfl, heq⟩
      · rw [if_neg hsym, if_neg (not_not_intro hof.format)]
        exact .inr ⟨bitmask, (hlength bitmask rfl).trans hbitmask, rfl, hue, not_lt.mp hsym, rfl⟩

/-- What the loop leaves of the variables `s`: the journal goes on with the DCIs that are created,
they start together and fit into the symbols that are left, and every process is sent or put off. -/
structure Retransmitted (bw x : ℕ) (log : List DciInfoElementTdma) (fb : List HarqInfo)
    (s t : DlHarqLoop) (created : List VarTtiAllocInfo) (put : List HarqInfo) : Prop where
  trace : HarqTrace .dl bw x (log ++ created.map VarTtiAllocInfo.dci) t.ues
  shape : SameShape s.ues t.ues
  allocs : t.varTtiAllocInfo = s.varTtiAllocInfo ++ created
  buffered : t.dlHarqToRetransmit = s.dlHarqToRetransmit ++ put
  fed : ∀ f ∈ put, f ∈ fb
  handled : ∀ k, Handled s.ues t.ues created put k
  fits : ∀ a ∈ created, a.dci.symStart = s.currStartingSymbol ∧ a.dci.numSym ≤ s.symAvail

/-- Where the next process of the beam may go. -/
structure InBeam (bw : ℕ) (s t : DlHarqLoop) : Prop where
  start : t.currStartingSymbol = s.currStartingSymbol
  symAvail_le : t.symAvail ≤ s.symAvail
  bitmask : t.dlBitmask.length = bw

theorem retransmitDl_ok (hx : x ≤ 3) {k : ℕ × ℕ} (hfb : ∃ f ∈ fb, f.key = k) {s : DlHarqLoop}
    (h : HarqTrace .dl bw x log s.ues) (hknown : s.ues.Known k) (hsym : s.symAvail < 256)
    (hbitmask : s.dlBitmask.length = bw) (hp : Nacked .dl bw x k (s.ues.process k)) :
    ∃ t created put, retransmitDl C fb s k = .ok t ∧ Retransmitted bw x log fb s t created put ∧
      InBeam bw s t ∧ (put.map HarqInfo.key).Sublist [k] ∧
      ∀ k' ≠ k, t.ues.process k' = s.ues.process k' := by
  have hothers : ∀ (q : HarqProcess) (k' : ℕ × ℕ), k' ≠ k →
      (s.ues.put k q).process k' = s.ues.process k' :=
    fun q k' hne => (process_put k k' q).trans (if_neg hne)
  have hhandled : ∀ {q : HarqProcess} {created : List VarTtiAllocInfo} {put : List HarqInfo},
      Handled s.ues (s.ues.put k q) created put k →
      ∀ k', Handled s.ues (s.ues.put k q) created put k' := by
    intro q created put hk k'
    by_cases hkk : k' = k
    · exact hkk ▸ hk
    · exact .inr (.inr (hothers q k' hkk))
  obtain ⟨dci, hdci, hkey, ⟨f, hf, hfk, q, hq, heq⟩ | ⟨bitmask, h1, -, -, h2, heq⟩⟩ :=
    retransmitDl_cases hfb hknown hbitmask hp (C := C)
  · have htrace : HarqTrace .dl bw x log (s.ues.put k q) := by
      rcases hq with rfl | rfl
      · exact h.restart hknown hp
      · exact h.restart_moved hknown hp hdci _
    refine ⟨_, [], [f], heq, ⟨?_, sameShape_put k q, (List.append_nil _).symm, rfl, fun g hg => ?_,
      hhandled (.inr (.inl ⟨f, List.mem_singleton_self f, hfk⟩)),
      fun a ha => absurd ha List.not_mem_nil⟩, ⟨rfl, le_rfl, hbitmask⟩, ?_, hothers q⟩
    · rw [List.map_nil, List.append_nil]
      exact htrace
    · exact List.mem_singleton.mp hg ▸ hf
    · rw [List.map_singleton, hfk]
  · refine ⟨_, [⟨dci.reTx s.currStartingSymbol, (s.ues.process k).rlcPduInfo⟩], [], heq,
      ⟨h.reTx hx hknown hp hdci _, sameShape_put k _, rfl, (List.append_nil _).symm,
        fun g hg => absurd hg List.not_mem_nil,
        hhandled (.inl ⟨_, List.mem_singleton_self _, hkey⟩), fun a ha => ?_⟩, ⟨rfl, ?_, h1⟩,
      List.nil_sublist _, hothers _⟩
    · rw [List.mem_singleton.mp ha]
      exact ⟨rfl, h2⟩
    · show subUint8 s.symAvail dci.numSym ≤ s.symAvail
      rw [subUint8_of_le h2 hsym]
      exact Nat.sub_le _ _

/-- **Step lemma** of the downlink retransmissions. -/
theorem foldlM_retransmitDl (hx : x ≤ 3) : ∀ {ks : List (ℕ × ℕ)} {s : DlHarqLoop}
    {log : List DciInfoElementTdma}, HarqTrace .dl bw x log s.ues → ks.Nodup →
    s.symAvail < 256 → s.dlBitmask.length = bw →
    (∀ k ∈ ks, (∃ f ∈ fb, f.key = k) ∧ s.ues.Known k ∧ Nacked .dl bw x k (s.ues.process k)) →
    ∃ t created put, ks.foldlM (retransmitDl C fb) s = .ok t ∧
      Retransmitted bw x log fb s t created put ∧ InBeam bw s t ∧
      (put.map HarqInfo.key).Sublist ks := by
  intro ks
  induction ks with
  | nil =>
      intro s log h _ _ hbitmask _
      refine ⟨s, [], [], rfl, ⟨by simpa using h, SameShape.refl _, (List.append_nil _).symm,
        (List.append_nil _).symm, fun f hf => absurd hf List.not_mem_nil, fun k => .inr (.inr rfl),
        fun a ha => absurd ha List.not_mem_nil⟩, ⟨rfl, le_rfl, hbitmask⟩, List.Sublist.refl _⟩
  | cons k ks ih =>
      intro s log h hn hsym hbitmask hks
      rw [List.nodup_cons] at hn
      obtain ⟨hfb, hknown, hp⟩ := hks k List.mem_cons_self
      obtain ⟨u, created, put, h1, h2, h3, h4, h5⟩ := retransmitDl_ok (C := C) hx hfb h hknown hsym
        hbitmask hp
      obtain ⟨t, created', put', k1, k2, k3, k4⟩ := ih h2.trace hn.2
        (lt_of_le_of_lt h3.symAvail_le hsym) h3.bitmask fun k' hk' => by
          have hne : k' ≠ k := fun e => hn.1 (e ▸ hk')
          rw [h2.shape.known_iff, h5 k' hne]
          exact hks k' (List.mem_cons_of_mem k hk')
      refine ⟨t, created ++ created', put ++ put', ?_, ⟨?_, h2.shape.trans k2.shape, ?_, ?_,
        fun f hf => ?_, fun k' => (h2.handled k').trans (k2.handled k'), fun a ha => ?_⟩,
        ⟨k3.start.trans h3.start, k3.symAvail_le.trans h3.symAvail_le, k3.bitmask⟩, ?_⟩
      · rw [List.foldlM_cons, h1]
        exact k1
      · rw [List.map_append, ← List.append_assoc]
        exact k2.trace
      · rw [k2.allocs, h2.allocs, List.append_assoc]
      · rw [k2.buffered, h2.buffered, List.append_assoc]
      · rcases List.mem_append.mp hf with hf | hf
        · exact h2.fed f hf
        · exact k2.fed f hf
      · rcases List.mem_append.mp ha with ha | ha
        · exact h2.fits a ha
        · obtain ⟨hstart, hnum⟩ := k2.fits a ha
          exact ⟨hstart.trans h3.start, hnum.trans h3.symAvail_le⟩
      · rw [List.map_append]
        exact h4.append k4

end Loop

/-! ### A cell of one beam -/

section OneBeam

variable {C : DlHarqConfig} {bw x : ℕ} {log : List DciInfoElementTdma} {m : UeHarqMap}
  {beam : BeamId} {fb : List HarqInfo}

theorem computeActiveHarq_ok (beam : BeamId)
    (h : ∀ f ∈ fb, m.Known f.key ∧ Nacked .dl bw x f.key (m.process f.key)) :
    computeActiveHarq (fun _ => beam) m fb =
      .ok (if fb = [] then [] else [(beam, fb.map HarqInfo.key)]) := by
  have hround : ∀ active : ActiveHarqMap, ∀ f ∈ fb, (do
      let p ← m.find f.key
      if !p.active then throw .assertion
      if p.status ≠ .receivedFeedback then throw .assertion
      return addActive beam f.key active : Except Fault ActiveHarqMap) =
        .ok (addActive beam f.key active) := by
    intro active f hf
    obtain ⟨hknown, hp⟩ := h f hf
    simp [find_eq hknown, hp.active, hp.status]
  have hfold : ∀ (ks : List (ℕ × ℕ)) (l : List HarqInfo), (∀ f ∈ l, f ∈ fb) →
      l.foldlM (fun active f => do
        let p ← m.find f.key
        if !p.active then throw .assertion
        if p.status ≠ .receivedFeedback then throw .assertion
        return addActive beam f.key active) [(beam, ks)] =
          (.ok [(beam, ks ++ l.map HarqInfo.key)] : Except Fault ActiveHarqMap) := by
    intro ks l
    induction l generalizing ks with
    | nil => simp
    | cons f l ih =>
        intro hl
        rw [List.foldlM_cons, hround _ f (hl f List.mem_cons_self), Fallible.ok_bind,
          addActive, if_pos rfl, ih _ fun g hg => hl g (List.mem_cons_of_mem f hg),
          List.append_assoc]
        rfl
  cases fb with
  | nil => rfl
  | cons f l =>
      rw [computeActiveHarq, List.foldlM_cons, hround [] f List.mem_cons_self, Fallible.ok_bind,
        addActive, hfold _ l fun g hg => List.mem_cons_of_mem f hg, if_neg (List.cons_ne_nil f l)]
      rfl

theorem getBeamOrderRR_one {rr : List BeamId} (hrr : rr = [] ∨ rr = [beam]) :
    getBeamOrderRR rr [beam] = .ok ([some beam], [beam]) := by
  have hqueue : addBeams rr [beam] = [beam] := by
    rcases hrr with rfl | rfl <;> simp [addBeams]
  have hfront : InFront [beam] (addBeams rr [beam]) := by
    rw [hqueue]
    exact fun b hb => absurd hb List.not_mem_nil
  rw [getBeamOrderRR_ok (List.nodup_singleton beam) hfront, hqueue]
  rfl

/-- One beam uses at most the symbols that are left. -/
theorem scheduleDlHarq_ok (C : DlHarqConfig) (fb : List HarqInfo) (ks : List (ℕ × ℕ))
    (s : DlHarqLoop) (hx : x ≤ 3) {rr : List BeamId}
    (h : HarqTrace .dl bw x log s.ues) (hn : ks.Nodup) (hrr : rr = [] ∨ rr = [beam])
    (hsym : s.currStartingSymbol + s.symAvail < 255) (hbitmask : C.dlBitmask.length = bw)
    (hks : ∀ k ∈ ks, (∃ f ∈ fb, f.key = k) ∧ s.ues.Known k ∧
      Nacked .dl bw x k (s.ues.process k)) :
    ∃ t used created put, scheduleDlHarq C rr [(beam, ks)] fb s = .ok (t, [beam], used) ∧
      used ≤ s.symAvail ∧ Retransmitted bw x log fb s t created put ∧
      (put.map HarqInfo.key).Sublist ks := by
  obtain ⟨t, created, put, h1, h2, h3, h4⟩ := foldlM_retransmitDl (C := C) hx
    (s := { s with dlBitmask := C.dlBitmask, allocatedUe := [] }) h hn
    (by dsimp only; omega) hbitmask hks
  have hdrop : t.varTtiAllocInfo.drop s.varTtiAllocInfo.length = created := by
    rw [h2.allocs]
    exact List.drop_left
  obtain ⟨used, hused, hle⟩ := countUsedSymbols_ok hsym h2.fits
  have hfind : [(beam, ks)].find? (fun el => decide (some el.1 = some beam)) = some (beam, ks) := by
    simp
  have hbeam : ∃ t', retransmitBeam C fb s.currStartingSymbol [(beam, ks)]
      { s with dlBitmask := C.dlBitmask } (some beam) = .ok t' ∧ t'.ues = t.ues ∧
        t'.varTtiAllocInfo = t.varTtiAllocInfo ∧ t'.dlHarqToRetransmit = t.dlHarqToRetransmit := by
    simp only [retransmitBeam, hfind, h1, Fallible.ok_bind, hdrop, hused]
    split
    · exact ⟨_, rfl, rfl, rfl, rfl⟩
    · exact ⟨_, rfl, rfl, rfl, rfl⟩
  obtain ⟨t', k1, k2, k3, k4⟩ := hbeam
  refine ⟨t', used, created, put, ?_, hle,
    ⟨k2 ▸ h2.trace, k2 ▸ h2.shape, k3.trans h2.allocs, k4.trans h2.buffered, h2.fed,
      fun k => k2 ▸ h2.handled k, h2.fits⟩, h4⟩
  rw [scheduleDlHarq, List.map_singleton, getBeamOrderRR_one hrr, Fallible.ok_bind,
    List.foldlM_cons, k1, Fallible.ok_bind, List.foldlM_nil, Fallible.pure_eq, Fallible.ok_bind,
    k3, hdrop, hused]
  rfl

end OneBeam

/-! ### The entity -/

/-- The configuration of the cell.  The beam of a UE does not change. -/
structure DlCell where
  harq : HarqConfig
  beamId : ℕ → BeamId
  dlBitmask : List Bool
  length_dlBitmask : dlBitmask.length = harq.bandwidth
  fhControl : Bool
  doesFhAllocationFit : ℕ → ℕ → ℕ → Bool

/-- The entity with `m_rrBeams`. -/
structure DlHarq extends HarqEntity where
  rrBeams : List BeamId := []

namespace DlHarq

open HarqEntity

variable (D : DlCell) (s : DlHarq)

/-- `ComputeActiveHarq` and the retransmissions of `DoScheduleDl`. -/
def retransmissions (rrBeams : List BeamId) (symAvail sym : ℕ) (ues : UeHarqMap)
    (dlHarqFeedback : List HarqInfo) : Except Fault (DlHarqLoop × List BeamId) := do
  let active ← computeActiveHarq D.beamId ues dlHarqFeedback
  let loop : DlHarqLoop := ⟨ues, [], symAvail, sym, D.dlBitmask, [], []⟩
  if active.isEmpty then return (loop, rrBeams)
  else
    let r ← scheduleDlHarq ⟨D.harq.bandwidth, D.dlBitmask, D.fhControl, D.doesFhAllocationFit⟩
      rrBeams (sortDlHarq ues active) dlHarqFeedback loop
    if symAvail < r.2.2 then throw .assertion
    return (r.1, r.2.1)

/-- `DoSchedDlTriggerReq`, as far as HARQ goes. -/
def step : HarqEvent → Except Fault DlHarq
  | .configUe rnti => .ok { s with toHarqEntity := s.configUe D.harq rnti }
  | .releaseUe rnti => do
      let t ← s.releaseUe rnti
      return { s with toHarqEntity := t }
  | .slot feedback symAvail sym newData => do
      let r ← s.processFeedback D.harq (fun m l => m.dropStale l []) feedback
      let t ← retransmissions D s.rrBeams symAvail sym r.1 r.2
      let n ← insertAll (active t.1.ues t.1.varTtiAllocInfo newData) t.1.ues
      return {
        ues := n.1
        harqToRetransmit := t.1.dlHarqToRetransmit
        log := s.log ++ (t.1.varTtiAllocInfo ++ n.2).map VarTtiAllocInfo.dci
        rrBeams := t.2 }

/-- The feedback is of UEs that are there, and the symbols are those of a slot. -/
def Admissible : HarqEvent → Prop
  | .configUe _ => True
  | .releaseUe rnti => s.Releasable rnti
  | .slot feedback symAvail sym newData =>
      (∀ f ∈ feedback, s.ues.Known f.key) ∧ sym + symAvail < 255 ∧ s.Offered .dl D.harq newData

instance : ∀ ev, Decidable (Admissible D s ev)
  | .configUe _ => .isTrue trivial
  | .releaseUe rnti => inferInstanceAs (Decidable (s.Releasable rnti))
  | .slot feedback symAvail sym newData => inferInstanceAs (Decidable (
      (∀ f ∈ feedback, s.ues.Known f.key) ∧ sym + symAvail < 255 ∧ s.Offered .dl D.harq newData))

/-- The invariant, with the queue of the only beam. -/
def Inv (beam : BeamId) (s : DlHarq) : Prop :=
  s.toHarqEntity.Inv .dl D.harq ∧ (s.rrBeams = [] ∨ s.rrBeams = [beam])

variable {D s} {beam : BeamId}

theorem retransmissions_ok (hbeam : ∀ r, D.beamId r = beam) {kept : List HarqInfo} {m : UeHarqMap}
    {symAvail sym : ℕ} {rr : List BeamId} (hm : Fed .dl D.harq s.toHarqEntity m kept)
    (hrr : rr = [] ∨ rr = [beam]) (hsym : sym + symAvail < 255) :
    ∃ t rr' created put, retransmissions D rr symAvail sym m kept = .ok (t, rr') ∧
      (rr' = [] ∨ rr' = [beam]) ∧
      Retransmitted D.harq.bandwidth D.harq.maxHarqReTx s.log kept
        ⟨m, [], symAvail, sym, D.dlBitmask, [], []⟩ t created put ∧
      (put.map HarqInfo.key).Nodup := by
  have hactive := computeActiveHarq_ok beam fun f hf =>
    ⟨(hm.nacked f hf).1, (hm.nacked f hf).2.2⟩
  rw [show (fun _ => beam) = D.beamId from (funext hbeam).symm] at hactive
  rw [retransmissions, hactive, Fallible.ok_bind]
  by_cases hempty : kept = []
  · rw [if_pos hempty]
    refine ⟨_, rr, [], [], rfl, hrr, ⟨by simpa using hm.trace, SameShape.refl m, rfl, rfl,
      fun f hf => absurd hf List.not_mem_nil, fun k => .inr (.inr rfl),
      fun a ha => absurd ha List.not_mem_nil⟩, List.nodup_nil⟩
  · rw [if_neg hempty]
    have hperm := Cxx.StdSort.insertionSort_perm (compareNumSym m) (kept.map HarqInfo.key)
    obtain ⟨t, used, created, put, h1, h2, h3, h4⟩ := scheduleDlHarq_ok
      ⟨D.harq.bandwidth, D.dlBitmask, D.fhControl, D.doesFhAllocationFit⟩ kept
      (Cxx.StdSort.insertionSort (compareNumSym m) (kept.map HarqInfo.key))
      ⟨m, [], symAvail, sym, D.dlBitmask, [], []⟩ D.harq.maxHarqReTx_le hm.trace
      (hperm.nodup_iff.mpr hm.nodup) hrr hsym D.length_dlBitmask fun k hk => by
        obtain ⟨f, hf, rfl⟩ := List.mem_map.mp (hperm.mem_iff.mp hk)
        exact ⟨⟨f, hf, rfl⟩, (hm.nacked f hf).1, (hm.nacked f hf).2.2⟩
    refine ⟨t, [beam], created, put, ?_, .inr rfl, h3, h4.nodup (hperm.nodup_iff.mpr hm.nodup)⟩
    rw [List.isEmpty_cons, if_neg Bool.false_ne_true, sortDlHarq, List.map_singleton, h1,
      Fallible.ok_bind, if_neg (by dsimp only at h2 ⊢; omega)]
    rfl

theorem slot_ok (hbeam : ∀ r, D.beamId r = beam) (h : s.Inv D beam) {feedback : List HarqInfo}
    {symAvail sym : ℕ} {newData : List VarTtiAllocInfo}
    (ha : Admissible D s (.slot feedback symAvail sym newData)) :
    ∃ t, step D s (.slot feedback symAvail sym newData) = .ok t ∧ t.Inv D beam ∧
      AfterSlot .dl D.harq s.toHarqEntity t.toHarqEntity := by
  obtain ⟨hfeedback, hsym, hnew⟩ := ha
  obtain ⟨m, kept, h1, hm⟩ := h.1.processFeedback (fun m l => m.dropStale l [])
    hfeedback fun m hknown => by
      obtain ⟨l, l1, l2, l3, l4⟩ := dropStale_ok hknown []
      exact ⟨l, l1, l2, l3, fun f hf => (l4 f hf).1⟩
  obtain ⟨t, rr', created, put, k1, k2, k3, k4⟩ := retransmissions_ok hbeam hm h.2 hsym
  obtain ⟨v, created', n1, n2⟩ := Inv.finish t.varTtiAllocInfo hm k3.trace k3.shape
    k4 (fun f hf => (hm.nacked f (k3.fed f hf)).1) k3.handled hnew
  have hput : t.dlHarqToRetransmit = put := k3.buffered
  have hallocs : t.varTtiAllocInfo = created := k3.allocs
  refine ⟨⟨_, rr'⟩, ?_, ⟨n2.inv, k2⟩, n2⟩
  simp only [step, h1, Fallible.ok_bind, k1, n1]
  rw [hput, hallocs]
  rfl

/-- **Step lemma.** -/
theorem rules (hbeam : ∀ r, D.beamId r = beam) :
    Rules DlHarq.toHarqEntity (step D) (Admissible D) .dl D.harq (Inv D beam) where
  slot := fun _ _ _ _ _ hs ha => slot_ok hbeam hs ha
  configUe := fun _ r hs => ⟨_, rfl, ⟨hs.1.configUe r, hs.2⟩, fun _ hk => keeps_configUe hk r⟩
  releaseUe := fun s r hs ha => by
    obtain ⟨t, h1, h2, h3⟩ := hs.1.releaseUe ha
    refine ⟨{ s with toHarqEntity := t }, ?_, ⟨h2, hs.2⟩, h3⟩
    rw [step, h1]
    rfl

def start (D : DlCell) : DlHarq := { toHarqEntity := HarqEntity.start D.harq }

/-- **Run lemma.** -/
theorem run_inv (hbeam : ∀ r, D.beamId r = beam) {evs : List HarqEvent}
    (h : Runs.Allowed (step D) (Admissible D) (start D) evs) :
    ∃ s, Runs.run (step D) (start D) evs = .ok s ∧ s.Inv D beam :=
  Runs.run_of_guard (Inv D beam) (fun _ _ hs ha => (rules hbeam).step_inv hs ha)
    ⟨inv_start .dl D.harq, .inl rfl⟩ h

/-- **Transmissions.** In a cell of one beam no admissible run fails an assertion, whatever feedback
comes.  A DCI with the redundancy version `r` comes, on its process, right behind the transmissions
`0, …, r - 1` of the same transport block, and `r` is at most `maxHarqReTx`; the new data indicator
is set for the first transmission only. -/
theorem transmissions_dl (D : DlCell) (beam : BeamId) (hbeam : ∀ r, D.beamId r = beam)
    (evs : List HarqEvent) (h : Runs.Allowed (step D) (Admissible D) (start D) evs) :
    ∃ s, Runs.run (step D) (start D) evs = .ok s ∧
      ∀ pre d post, s.log = pre ++ d :: post →
        d.rv ≤ D.harq.maxHarqReTx ∧ (d.ndi = if d.rv = 0 then 1 else 0) ∧
        ∃ before blk, history DciInfoElementTdma.key pre d.key = before ++ blk ∧
          blk.map DciInfoElementTdma.rv = List.range d.rv ∧ ∀ a ∈ blk, a.block = d.block := by
  obtain ⟨s, hrun, hs⟩ := run_inv hbeam h
  exact ⟨s, hrun, fun _ _ _ hlog => hs.1.block hlog⟩

/-- Four processes for a UE, and three RBGs. -/
def oneBeam : DlCell where
  harq := ⟨4, by decide, [0, 1, 2, 3], by decide, true, 3⟩
  beamId := fun _ => ⟨1, 0⟩
  dlBitmask := [true, true, true]
  length_dlBitmask := rfl
  fhControl := false
  doesFhAllocationFit := fun _ _ _ => true

/-- Transport blocks of the UEs 7 and 8, side by side. -/
def both : List VarTtiAllocInfo :=
  [⟨⟨7, .dl, 1, 6, 12, 1, 100, 1, 0, .data, 0, 1, 0, [true, true, false]⟩, []⟩,
    ⟨⟨8, .dl, 1, 4, 12, 1, 100, 1, 0, .data, 0, 1, 0, [false, true, true]⟩, []⟩]

/-- Both are lost; their RBGs collide, so that one of them waits.  Feedback is repeated, and comes
for a process that is not in use. -/
def colliding : List HarqEvent :=
  [.configUe 7, .configUe 8, .slot [] 13 1 both,
    .slot [⟨7, 0, false⟩, ⟨8, 0, false⟩, ⟨7, 0, true⟩, ⟨7, 3, false⟩] 13 1 both,
    .slot [⟨8, 0, true⟩] 13 1 [], .slot [⟨7, 0, true⟩] 13 1 both]

theorem transmissions_dl_colliding :
    ∃ s, Runs.run (step oneBeam) (start oneBeam) colliding = .ok s ∧
      ∀ pre d post, s.log = pre ++ d :: post →
        d.rv ≤ 3 ∧ (d.ndi = if d.rv = 0 then 1 else 0) ∧
        ∃ before blk, history DciInfoElementTdma.key pre d.key = before ++ blk ∧
          blk.map DciInfoElementTdma.rv = List.range d.rv ∧ ∀ a ∈ blk, a.block = d.block :=
  transmissions_dl oneBeam ⟨1, 0⟩ (fun _ => rfl) colliding (by decide +kernel)

/-- **Expiry.** A process that is neither sent nor put off for `numHarqProcess + 1` slots is free,
whatever feedback comes, and whatever other UEs come and go meanwhile. -/
theorem freed_dl (D : DlCell) (beam : BeamId) (hbeam : ∀ r, D.beamId r = beam)
    (evs l : List HarqEvent) (k : ℕ × ℕ)
    (h : Runs.Allowed (step D) (Admissible D) (start D) evs)
    (hl : D.harq.numHarqProcess < l.countP HarqEvent.isSlot)
    (hquiet : ∀ s, Runs.run (step D) (start D) evs = .ok s →
      s.ues.Known k ∧
        Runs.Allowed (step D) (Quiet DlHarq.toHarqEntity (step D) (Admissible D) k) s l) :
    ∃ s t, Runs.run (step D) (start D) evs = .ok s ∧ Runs.run (step D) s l = .ok t ∧
      (t.ues.process k).active = false := by
  obtain ⟨s, hrun, hs⟩ := run_inv hbeam h
  obtain ⟨hk, hq⟩ := hquiet s hrun
  obtain ⟨t, h1, h2⟩ := (rules hbeam).free_of_quiet hs hk hl hq
  exact ⟨s, t, hrun, h1, h2⟩

/-- No feedback comes, and UE 8 leaves. -/
def silent : List HarqEvent := .releaseUe 8 :: List.replicate 5 (.slot [] 13 1 [])

theorem freed_dl_silent :
    ∃ s t, Runs.run (step oneBeam) (start oneBeam) [.configUe 7, .configUe 8, .slot [] 13 1 both] =
        .ok s ∧
      Runs.run (step oneBeam) s silent = .ok t ∧ (t.ues.process (7, 0)).active = false :=
  freed_dl oneBeam ⟨1, 0⟩ (fun _ => rfl) [.configUe 7, .configUe 8, .slot [] 13 1 both] silent (7, 0)
    (by decide +kernel) (by decide) (by decide +kernel)

end DlHarq

end Rbis
