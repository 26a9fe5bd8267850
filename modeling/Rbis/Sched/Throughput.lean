import Rbis.Sched.Admission
import Rbis.Sched.Collision

/-! # The throughput credited to the virtual queues

At the end of `AssignDLRBG` the virtual queue of a UE is credited with `m_dlTbSize`; the bytes
that leave in the slot are those of the DCI that `DoScheduleDlData` creates afterwards.  The
allocation loop keeps `m_dlTbSize` up to date (`metric_of_reaches`), but nothing refreshes it
when the fronthaul control takes the RBGs of a UE or caps its MCS, and `CreateDlDci` makes no
DCI below 10 bytes.  The two sizes agree exactly if none of this changes the size of a UE after
the loop of its beam (`creditedIsSent_iff`). -/

namespace Rbis

open Cxx Fallible

namespace Scheduler

variable (S : Scheduler)

/-- `CreateDlDci` makes a DCI of `tb` bytes for a UE in the state `u`. -/
def Sends (u : UeInfo) (tb : ℕ) : Prop :=
  u.dlRBG ≠ [] ∧ u.tbSizeNow S.dlAmc S.numRbPerRbg = .ok tb ∧ 10 ≤ tb

/-- The MCS of the DCI of a UE: `GetDlMcs`, under `OptimizeMcs` capped by the fronthaul. -/
def dciMcs (u : UeInfo) : Except Fault ℕ := do
  let mcs ← u.getDlMcs S.dlAmc
  match S.fhControl with
  | none => return mcs
  | some fh =>
      return if fh.fhControlMethod = .optimizeMcs
        then min mcs (fh.getMaxMcsAssignable u.dlRBG.length u.rnti u.dlRank) else mcs

/-- The query to the fronthaul control about a UE with the MCS `mcs`, when it has RBGs. -/
def queryWith (mcs : Except Fault ℕ) (u : UeInfo) : Option FhQuery :=
  match u.dlRBG, mcs with
  | [], _ => none
  | _ :: _, .ok mcs => some ⟨mcs, u.dlRBG.length, u.dlRank⟩
  | _ :: _, .error _ => none

/-- The query about a UE as it is at the end of the loop. -/
def fhQuery (u : UeInfo) : Option FhQuery := queryWith (S.dciMcs u) u

/-- At the end of the loop in `s`, and after the queries of the beams before, the fronthaul
control refuses the allocation of the UE. -/
def Refused (s : BeamState) (queries : List FhQuery) (ue : UePtrAndBufferReq) : Prop :=
  ∃ fh l₁ l₂ q, S.fhControl = some fh ∧ fh.fhControlMethod ≠ .dropping ∧
    S.stdShuffle s.ueVector = l₁ ++ ue :: l₂ ∧ S.fhQuery (s.ueOf ue) = some q ∧
    fh.doesAllocationFit (queries ++ l₁.filterMap fun u => S.fhQuery (s.ueOf u)) q = false

/-- The size of the transport block of a UE at the MCS `mcs`. -/
def tbSizeAt (u : UeInfo) (mcs : ℕ) : ℕ :=
  S.dlAmc.calculateTbSize mcs u.dlRank (u.dlRBG.length * S.numRbPerRbg)

/-- What follows the loop keeps the size of the transport block of the UE.  The fronthaul control
frees only an empty block, its cap of the MCS keeps the size of a block with a DCI, and
`CreateDlDci` drops only an empty block. -/
structure SizeKept (s : BeamState) (queries : List FhQuery) (ue : UePtrAndBufferReq) : Prop where
  freed : S.Refused s queries ue → ∀ mcs, (s.ueOf ue).getDlMcs S.dlAmc = .ok mcs →
    S.tbSizeAt (s.ueOf ue) mcs = 0
  capped : ¬ S.Refused s queries ue → (s.ueOf ue).dlRBG ≠ [] →
    ∀ mcs cap, (s.ueOf ue).getDlMcs S.dlAmc = .ok mcs → S.dciMcs (s.ueOf ue) = .ok cap →
      10 ≤ S.tbSizeAt (s.ueOf ue) cap →
        S.tbSizeAt (s.ueOf ue) cap = S.tbSizeAt (s.ueOf ue) mcs
  dropped : ¬ S.Refused s queries ue → (s.ueOf ue).dlRBG ≠ [] →
    ∀ mcs cap, (s.ueOf ue).getDlMcs S.dlAmc = .ok mcs → S.dciMcs (s.ueOf ue) = .ok cap →
      S.tbSizeAt (s.ueOf ue) cap < 10 → S.tbSizeAt (s.ueOf ue) mcs = 0

/-- `s` is the state in which the loop of the beam `el` of the call ends, `queries` are the
queries to the fronthaul control in the beams before. -/
def LoopEnd (now : ℚ) (i : SlotStart) (el : BeamId × List UePtrAndBufferReq) (s : BeamState)
    (queries : List FhQuery) : Prop :=
  ∃ pre post acc e, i.activeDl = pre ++ el :: post ∧
    pre.foldlM (S.assignBeam now (S.getSymPerBeam i.symAvail i.activeDl)) (i.world, []) = .ok acc ∧
    S.beamEntry now ((S.getSymPerBeam i.symAvail i.activeDl).getD el.1 0) acc.1 el.2 = .ok e ∧
    S.runLoop e.1.statics ((S.getSymPerBeam i.symAvail i.activeDl).getD el.1 0) e.2 = .ok s ∧
    queries = acc.2

end Scheduler

/-! ### The end of a loop -/

namespace Scheduler

variable {S : Scheduler} {now : ℚ} {i : SlotStart} {st : DppaStatics} {beamSym : ℕ}

/-- The UEs of a beam at the end of its loop: the metric is up to date, and who has RBGs is in
the vector. -/
structure EndOk (S : Scheduler) (ues : List UePtrAndBufferReq) (s : BeamState) : Prop where
  nodup : (s.ueVector.map Prod.fst).Nodup
  mem : ∀ ue ∈ s.ueVector, ue ∈ ues
  metric : ∀ ue ∈ ues, S.MetricOk (s.ueOf ue)
  held : ∀ ue ∈ ues, (s.ueOf ue).dlRBG ≠ [] → ue ∈ s.ueVector

theorem loopEnd_ok {el : BeamId × List UePtrAndBufferReq} {s : BeamState}
    {queries : List FhQuery} (h : S.LoopEnd now i el s queries) : EndOk S el.2 s := by
  obtain ⟨pre, post, acc, e, hi, hpre, he, hs, _⟩ := h
  obtain ⟨_, hc⟩ := loopEntry_clean hi hpre
  have hentry : S.LoopEntry now i e.1.statics _ e.2 :=
    ⟨pre, el, post, acc, e, hi, hpre, rfl, he, rfl, rfl⟩
  obtain ⟨hreach, _⟩ := runLoop_ok hs
  obtain ⟨hinv, hframe⟩ := reaches_inv hreach (loopEntry_inv hentry).1
  have hmem : ∀ ue ∈ s.ueVector, ue ∈ el.2 := fun ue hue =>
    (beamEntry_mem he).mp (hframe.mem ue hue)
  obtain ⟨_, _, hl⟩ := hinv.ledger
  obtain ⟨_, h1, h2⟩ := beamEntry_ok he
  refine ⟨hl.nodup, hmem, fun ue hue => ?_, fun ue hue hne => ?_⟩
  · have hclean : (e.2.alloc.ues ue.1).Clean := by
      rw [h2]
      exact (entered_of_foldlM h1).clean ue.1 (hc ue hue)
    refine metric_of_reaches (loopEntry_inv hentry).1 hreach ?_
    unfold MetricOk
    rw [UeInfo.tbSizeNow_of_nil _ _ _ hclean.1, hclean.2.2]
  · exact mem_of_held hentry hreach ((beamEntry_mem he).mpr hue) hne

/-! ### The fronthaul control -/

/-- `v` is `u` after the cap of its MCS. -/
structure Capped (S : Scheduler) (u v : UeInfo) : Prop where
  dlRBG : v.dlRBG = u.dlRBG
  dlRank : v.dlRank = u.dlRank
  dlTbSize : v.dlTbSize = u.dlTbSize
  mcs : u.dlRBG ≠ [] → v.getDlMcs S.dlAmc = S.dciMcs u

/-- The query about a UE as it is. -/
def queryNow (S : Scheduler) (u : UeInfo) : Option FhQuery := queryWith (u.getDlMcs S.dlAmc) u

theorem Capped.query {u v : UeInfo} (h : Capped S u v) : queryNow S v = S.fhQuery u := by
  unfold queryNow fhQuery queryWith
  rw [h.dlRBG, h.dlRank]
  cases hl : u.dlRBG with
  | nil => rfl
  | cons r l => rw [h.mcs (by simp [hl])]

theorem dciMcs_of_none (hfh : S.fhControl = none) (u : UeInfo) :
    S.dciMcs u = u.getDlMcs S.dlAmc := by
  unfold dciMcs
  rw [hfh]
  exact bind_pure _

theorem dciMcs_of_ne {fh : NrFhControl} (hfh : S.fhControl = some fh)
    (hm : fh.fhControlMethod ≠ .optimizeMcs) (u : UeInfo) :
    S.dciMcs u = u.getDlMcs S.dlAmc := by
  unfold dciMcs
  rw [hfh]
  simp only [if_neg hm]
  exact bind_pure _

theorem capMcs_ok {fh : NrFhControl} (hfh : S.fhControl = some fh)
    (hm : fh.fhControlMethod = .optimizeMcs) {heap heap' : UePtr → UeInfo}
    {ue : UePtrAndBufferReq} (h : S.capMcs fh heap ue = .ok heap') :
    (∀ p, p ≠ ue.1 → heap' p = heap p) ∧ Capped S (heap ue.1) (heap' ue.1) := by
  unfold capMcs at h
  dsimp only at h
  split at h
  · next hnil =>
      cases h
      exact ⟨fun _ _ => rfl, rfl, rfl, rfl, fun hne => absurd hnil hne⟩
  · obtain ⟨mcs, hmcs, h⟩ := bind_eq_ok.mp h
    cases h
    refine ⟨fun p hp => Function.update_of_ne hp _ _, ?_⟩
    rw [Function.update_self]
    refine ⟨rfl, rfl, rfl, fun _ => ?_⟩
    unfold dciMcs
    rw [hmcs, hfh]
    simp only [ok_bind, if_pos hm]
    rfl

theorem capAll_ok {fh : NrFhControl} (hfh : S.fhControl = some fh)
    {ues : List UePtrAndBufferReq} (hn : (ues.map Prod.fst).Nodup) {heap heap' : UePtr → UeInfo}
    (h : S.capAll fh ues heap = .ok heap') {ue : UePtrAndBufferReq} (hue : ue ∈ ues) :
    Capped S (heap ue.1) (heap' ue.1) := by
  unfold capAll at h
  split at h
  · next hm =>
      exact (foldlM_local (fun heap => heap) Prod.fst (fun _ u v => Capped S u v)
        (fun ue b c hc => capMcs_ok hfh hm hc) hn h).2 ue hue
  · next hm =>
      cases h
      exact ⟨rfl, rfl, rfl, fun _ => (dciMcs_of_ne hfh hm _).symm⟩

/-- What a round of the deallocation does to its UE, after the queries `queries`. -/
inductive Dropped (S : Scheduler) (fh : NrFhControl) (queries : List FhQuery) (u : UeInfo) :
    UeInfo → Prop
  | idle (h : u.dlRBG = []) : Dropped S fh queries u u
  | fits (q : FhQuery) (hq : queryNow S u = some q)
      (h : fh.doesAllocationFit queries q = true) : Dropped S fh queries u u
  | freed (q : FhQuery) (y : List ℕ) (hq : queryNow S u = some q)
      (h : fh.doesAllocationFit queries q = false) :
      Dropped S fh queries u { u with dlRBG := [], dlSym := y }

theorem dropUnfit_ok {fh : NrFhControl} {acc acc' : Alloc × List FhQuery}
    {ue : UePtrAndBufferReq} (h : S.dropUnfit fh beamSym acc ue = .ok acc') :
    (∀ p, p ≠ ue.1 → acc'.1.ues p = acc.1.ues p) ∧
      acc'.2 = acc.2 ++ (queryNow S (acc.1.ues ue.1)).toList ∧
      Dropped S fh acc.2 (acc.1.ues ue.1) (acc'.1.ues ue.1) := by
  unfold dropUnfit at h
  dsimp only at h
  split at h
  · next hnil =>
      cases h
      refine ⟨fun _ _ => rfl, ?_, .idle hnil⟩
      simp [queryNow, queryWith, hnil]
  · next hne =>
      obtain ⟨mcs, hmcs, h⟩ := bind_eq_ok.mp h
      have hq : queryNow S (acc.1.ues ue.1) =
          some ⟨mcs, (acc.1.ues ue.1).dlRBG.length, (acc.1.ues ue.1).dlRank⟩ := by
        unfold queryNow queryWith
        rw [hmcs]
        cases hl : (acc.1.ues ue.1).dlRBG with
        | nil => exact absurd hl hne
        | cons r l => rfl
      rw [hq]
      split at h
      · next hfit =>
          cases h
          exact ⟨fun _ _ => rfl, rfl, .fits _ hq hfit⟩
      · next hfit =>
          obtain ⟨a, ha, h⟩ := bind_eq_ok.mp h
          cases h
          obtain ⟨y, _, hues⟩ := releaseRbgs_ues ha
          refine ⟨fun p hp => ?_, rfl, ?_⟩
          · show a.ues p = _
            rw [hues, Function.update_of_ne hp]
          · show Dropped S fh acc.2 _ (a.ues ue.1)
            rw [hues, Function.update_self]
            exact .freed _ y hq (Bool.eq_false_iff.mpr hfit)

theorem toList_append_filterMap {α β : Type} (f : α → Option β) (a : α) (l : List α) :
    (f a).toList ++ l.filterMap f = (a :: l).filterMap f := by
  rw [List.filterMap_cons]
  cases f a with
  | none => rfl
  | some b => rfl

/-- The rounds of the deallocation: every UE is asked about once, after the UEs before it. -/
theorem dropUnfits_ok {fh : NrFhControl} : ∀ {l : List UePtrAndBufferReq}
    {acc acc' : Alloc × List FhQuery}, (l.map Prod.fst).Nodup →
      l.foldlM (S.dropUnfit fh beamSym) acc = .ok acc' →
      (∀ p, p ∉ l.map Prod.fst → acc'.1.ues p = acc.1.ues p) ∧
        ∀ l₁ ue l₂, l = l₁ ++ ue :: l₂ → Dropped S fh
          (acc.2 ++ l₁.filterMap fun u => queryNow S (acc.1.ues u.1))
          (acc.1.ues ue.1) (acc'.1.ues ue.1)
  | [], acc, acc', _, h => by
      cases h
      refine ⟨fun _ _ => rfl, fun l₁ ue l₂ hl => ?_⟩
      exact absurd hl.symm (by simp)
  | u :: l, acc, acc', hn, h => by
      rw [List.map_cons, List.nodup_cons] at hn
      rw [List.foldlM_cons] at h
      obtain ⟨acc₁, h1, h2⟩ := bind_eq_ok.mp h
      obtain ⟨hothers, hqueries, hdropped⟩ := dropUnfit_ok h1
      obtain ⟨ihothers, ih⟩ := dropUnfits_ok hn.2 h2
      refine ⟨fun p hp => ?_, fun l₁ ue l₂ hl => ?_⟩
      · rw [List.map_cons, List.mem_cons, not_or] at hp
        rw [ihothers p hp.2, hothers p hp.1]
      · cases l₁ with
        | nil =>
            obtain ⟨rfl, rfl⟩ := List.cons.inj hl
            rw [ihothers u.1 hn.1, List.filterMap_nil, List.append_nil]
            exact hdropped
        | cons u' l₁ =>
            obtain ⟨rfl, rfl⟩ := List.cons.inj hl
            have hsame : ∀ v ∈ l₁ ++ ue :: l₂, acc₁.1.ues v.1 = acc.1.ues v.1 := by
              intro v hv
              refine hothers v.1 fun e => hn.1 ?_
              rw [← e]
              exact List.mem_map_of_mem hv
            have hround := ih l₁ ue l₂ rfl
            rw [hsame ue (by simp), hqueries] at hround
            have hlist : l₁.filterMap (fun v => queryNow S (acc₁.1.ues v.1)) =
                l₁.filterMap fun v => queryNow S (acc.1.ues v.1) := by
              refine List.filterMap_congr fun v hv => ?_
              rw [hsame v (List.mem_append_left _ hv)]
            have happ : (queryNow S (acc.1.ues u.1)).toList ++
                  l₁.filterMap (fun v => queryNow S (acc.1.ues v.1)) =
                (u :: l₁).filterMap fun v => queryNow S (acc.1.ues v.1) :=
              toList_append_filterMap (fun v : UePtrAndBufferReq => queryNow S (acc.1.ues v.1)) u l₁
            rw [hlist, List.append_assoc, happ] at hround
            exact hround

/-- What follows the loop leaves of a UE of the beam. -/
structure AfterLoop (S : Scheduler) (s : BeamState) (queries : List FhQuery)
    (ue : UePtrAndBufferReq) (v : UeInfo) : Prop where
  dlTbSize : v.dlTbSize = (s.ueOf ue).dlTbSize
  nil : (s.ueOf ue).dlRBG = [] → v.dlRBG = []
  refused : S.Refused s queries ue → v.dlRBG = []
  kept : (s.ueOf ue).dlRBG ≠ [] → ¬ S.Refused s queries ue →
    v.dlRBG = (s.ueOf ue).dlRBG ∧ v.dlRank = (s.ueOf ue).dlRank ∧
      v.getDlMcs S.dlAmc = S.dciMcs (s.ueOf ue)

theorem AfterLoop.of_capped {s : BeamState} {queries : List FhQuery} {ue : UePtrAndBufferReq}
    {v : UeInfo} (h : Capped S (s.ueOf ue) v) (hr : ¬ S.Refused s queries ue) :
    AfterLoop S s queries ue v :=
  ⟨h.dlTbSize, fun hnil => h.dlRBG.trans hnil, fun h => absurd h hr,
    fun hne _ => ⟨h.dlRBG, h.dlRank, h.mcs hne⟩⟩

theorem refused_ne_nil {s : BeamState} {queries : List FhQuery} {ue : UePtrAndBufferReq}
    (h : S.Refused s queries ue) : (s.ueOf ue).dlRBG ≠ [] := by
  intro hnil
  obtain ⟨_, _, _, q, _, _, _, hq, _⟩ := h
  unfold fhQuery queryWith at hq
  rw [hnil] at hq
  cases hq

theorem refused_iff {fh : NrFhControl} (hfh : S.fhControl = some fh)
    (hm : fh.fhControlMethod ≠ .dropping) {s : BeamState} (queries : List FhQuery)
    {l₁ l₂ : List UePtrAndBufferReq} {ue : UePtrAndBufferReq}
    (hn : (S.stdShuffle s.ueVector).Nodup) (hl : S.stdShuffle s.ueVector = l₁ ++ ue :: l₂) :
    S.Refused s queries ue ↔ ∃ q, S.fhQuery (s.ueOf ue) = some q ∧
      fh.doesAllocationFit (queries ++ l₁.filterMap fun u => S.fhQuery (s.ueOf u)) q = false := by
  constructor
  · rintro ⟨fh', l₁', l₂', q, hsome, _, hl', hq, hfit⟩
    rw [hfh] at hsome
    cases hsome
    have hsplit := hn
    rw [hl, List.nodup_append] at hsplit
    have hout : ue ∉ l₁ := fun h => hsplit.2.2 ue h ue List.mem_cons_self rfl
    have heq := (List.append_cons_inj_of_notMem hout (List.nodup_cons.mp hsplit.2.1).1).mp
      (hl.symm.trans hl')
    rw [heq.1]
    exact ⟨q, hq, hfit⟩
  · rintro ⟨q, hq, hfit⟩
    exact ⟨fh, l₁, l₂, q, hfh, hm, hl, hq, hfit⟩

/-- A UE after its round of the deallocation. -/
theorem afterLoop_of_dropped {fh : NrFhControl} {s : BeamState} {queries queries' : List FhQuery}
    {ue : UePtrAndBufferReq} {u v : UeInfo} (hc : Capped S (s.ueOf ue) u)
    (hr : S.Refused s queries ue ↔ ∃ q, S.fhQuery (s.ueOf ue) = some q ∧
      fh.doesAllocationFit queries' q = false)
    (h : Dropped S fh queries' u v) : AfterLoop S s queries ue v := by
  cases h with
  | idle hnil =>
      refine .of_capped hc fun hrefused => ?_
      obtain ⟨q, hq, _⟩ := hr.mp hrefused
      rw [← hc.query] at hq
      simp [queryNow, queryWith, hnil] at hq
  | fits q hq hfit =>
      refine .of_capped hc fun hrefused => ?_
      obtain ⟨q', hq', hno⟩ := hr.mp hrefused
      rw [← hc.query, hq] at hq'
      cases hq'
      rw [hfit] at hno
      cases hno
  | freed q y hq hno =>
      rw [hc.query] at hq
      exact ⟨hc.dlTbSize, fun _ => rfl, fun _ => rfl, fun _ hk => absurd (hr.mpr ⟨q, hq, hno⟩) hk⟩

/-- **The fronthaul control** leaves the metrics as they are, and takes the RBGs of the UEs that
are refused. -/
theorem afterLoop_of_fronthaul {ues : List UePtrAndBufferReq} {s : BeamState}
    {queries : List FhQuery} {r : Alloc × List FhQuery} (hok : EndOk S ues s)
    (hn : (ues.map Prod.fst).Nodup) (h : S.fronthaul beamSym ues s queries = .ok r)
    {ue : UePtrAndBufferReq} (hue : ue ∈ ues) : AfterLoop S s queries ue (r.1.ues ue.1) := by
  unfold fronthaul at h
  split at h
  · next hfh =>
      cases h
      refine .of_capped ⟨rfl, rfl, rfl, fun _ => (dciMcs_of_none hfh _).symm⟩ ?_
      rintro ⟨fh, _, _, _, hsome, _⟩
      rw [hfh] at hsome
      cases hsome
  · next fh hfh =>
      obtain ⟨heap, hheap, h⟩ := bind_eq_ok.mp h
      have hcap : ∀ u ∈ ues, Capped S (s.ueOf u) (heap u.1) := fun u hu => capAll_ok hfh hn hheap hu
      dsimp only at h
      split at h
      · next hm =>
          cases h
          refine .of_capped (hcap ue hue) ?_
          rintro ⟨fh', _, _, _, hsome, hne, _⟩
          rw [hfh] at hsome
          cases hsome
          exact hne hm
      · next hm =>
          unfold deallocateResourcesDueToFronthaulConstraint at h
          have hperm := S.stdShuffle_perm s.ueVector
          have hnd : ((S.stdShuffle s.ueVector).map Prod.fst).Nodup :=
            (hperm.map _).nodup_iff.mpr hok.nodup
          obtain ⟨hothers, hdrop⟩ := dropUnfits_ok hnd h
          by_cases hin : ue ∈ s.ueVector
          · obtain ⟨l₁, l₂, hl⟩ := List.append_of_mem (hperm.mem_iff.mpr hin)
            have hround := hdrop l₁ ue l₂ hl
            have hlist : l₁.filterMap (fun u => queryNow S (heap u.1)) =
                l₁.filterMap fun u => S.fhQuery (s.ueOf u) := by
              refine List.filterMap_congr fun u hu => (hcap u (hok.mem u ?_)).query
              refine hperm.mem_iff.mp ?_
              rw [hl]
              exact List.mem_append_left _ hu
            have hrefused := refused_iff hfh hm queries (List.Nodup.of_map _ hnd) hl
            rw [hlist] at hround
            exact afterLoop_of_dropped (hcap ue hue) hrefused hround
          · have hnil : (s.ueOf ue).dlRBG = [] := by
              by_contra hne
              exact hin (hok.held ue hue hne)
            have hout : ue.1 ∉ (S.stdShuffle s.ueVector).map Prod.fst := by
              intro hm'
              obtain ⟨u, hu, he⟩ := List.mem_map.mp hm'
              have hu' := hperm.mem_iff.mp hu
              rw [List.inj_on_of_nodup_map hn (hok.mem u hu') hue he] at hu'
              exact hin hu'
            rw [hothers ue.1 hout]
            refine .of_capped (hcap ue hue) ?_
            rintro ⟨_, l₁, l₂, _, _, _, hl, _⟩
            refine hin (hperm.mem_iff.mp ?_)
            rw [hl]
            exact List.mem_append_cons_self

/-! ### The end of the call -/

/-- `v` has the identity, the allocation and the sizes of `u`. -/
structure SameSizes (S : Scheduler) (u v : UeInfo) : Prop where
  rnti : v.rnti = u.rnti
  dlRBG : v.dlRBG = u.dlRBG
  dlTbSize : v.dlTbSize = u.dlTbSize
  tbSizeNow : v.tbSizeNow S.dlAmc S.numRbPerRbg = u.tbSizeNow S.dlAmc S.numRbPerRbg

theorem closeUe_sizes (total : ℕ) (w : World) (ue : UePtrAndBufferReq) (p : UePtr) :
    SameSizes S (w.ues p) ((S.closeUe total w ue).ues p) := by
  by_cases hp : p = ue.1
  · rw [hp]
    simp only [closeUe, Function.update_self]
    split
    · exact ⟨rfl, rfl, rfl, rfl⟩
    · exact ⟨rfl, rfl, rfl, rfl⟩
  · simp only [closeUe, Function.update_of_ne hp]
    exact ⟨rfl, rfl, rfl, rfl⟩

theorem closeAll_sizes (total : ℕ) (p : UePtr) : ∀ (l : List UePtrAndBufferReq) (w : World),
    SameSizes S (w.ues p) ((l.foldl (S.closeUe total) w).ues p)
  | [], _ => ⟨rfl, rfl, rfl, rfl⟩
  | ue :: l, w => by
      have h := closeUe_sizes (S := S) total w ue p
      have ih := closeAll_sizes total p l (S.closeUe total w ue)
      rw [List.foldl_cons]
      exact ⟨ih.rnti.trans h.rnti, ih.dlRBG.trans h.dlRBG, ih.dlTbSize.trans h.dlTbSize,
        ih.tbSizeNow.trans h.tbSizeNow⟩

theorem assignDLRBG_closed {w w' : World} {symAvail : ℕ} {activeDl : ActiveUeMap}
    {symPerBeam : BeamSymbolMap} (h : S.assignDLRBG now w symAvail activeDl = .ok (w', symPerBeam)) :
    ∃ acc, activeDl.foldlM (S.assignBeam now (S.getSymPerBeam symAvail activeDl)) (w, []) =
      .ok acc ∧ ∀ p, SameSizes S (acc.1.ues p) (w'.ues p) := by
  unfold assignDLRBG at h
  obtain ⟨acc, hacc, h⟩ := bind_eq_ok.mp h
  cases h
  exact ⟨acc, hacc, fun p => closeAll_sizes _ p _ _⟩

/-- **The UEs after a call**, from the ends of the loops of their beams. -/
theorem assignDLRBG_afterLoop {w : World} {symPerBeam : BeamSymbolMap}
    (h : S.assignDLRBG now i.world i.symAvail i.activeDl = .ok (w, symPerBeam))
    {el : BeamId × List UePtrAndBufferReq} {s : BeamState} {queries : List FhQuery}
    (hend : S.LoopEnd now i el s queries) {ue : UePtrAndBufferReq} (hue : ue ∈ el.2) :
    ∃ v, AfterLoop S s queries ue v ∧ SameSizes S v (w.ues ue.1) := by
  obtain ⟨acc, hacc, hclose⟩ := assignDLRBG_closed h
  have hok := loopEnd_ok hend
  obtain ⟨pre, post, acc₁, e, hi, hpre, he, hs, rfl⟩ := hend
  obtain ⟨acc₁', acc₂, hpre', hone, _, _, hlater⟩ := assignBeams_round hi hacc
  rw [hpre] at hpre'
  cases hpre'
  obtain ⟨e', s', r, he', hs', hr, rfl⟩ := assignBeam_ok hone
  rw [he] at he'
  cases he'
  rw [hs] at hs'
  cases hs'
  refine ⟨r.1.ues ue.1, afterLoop_of_fronthaul hok (loopEntry_clean hi hpre).1 hr hue, ?_⟩
  have hsame := hclose ue.1
  rw [hlater ue hue] at hsame
  exact hsame

theorem exists_loopEnd {w : World} {symPerBeam : BeamSymbolMap}
    (h : S.assignDLRBG now i.world i.symAvail i.activeDl = .ok (w, symPerBeam))
    {el : BeamId × List UePtrAndBufferReq} (hel : el ∈ i.activeDl) :
    ∃ s queries, S.LoopEnd now i el s queries := by
  obtain ⟨acc, hacc, _⟩ := assignDLRBG_ok h
  obtain ⟨pre, post, hi⟩ := List.append_of_mem hel
  obtain ⟨acc₁, acc₂, hpre, hone, _⟩ := assignBeams_round hi hacc
  obtain ⟨e, s, r, he, hs, _⟩ := assignBeam_ok hone
  exact ⟨s, acc₁.2, pre, post, acc₁, e, hi, hpre, he, hs, rfl⟩

/-- A UE in the state `u` is credited with what `CreateDlDci` makes of it. -/
def CreditedAsSent (S : Scheduler) (u : UeInfo) : Prop :=
  (∀ tb, S.Sends u tb → u.dlTbSize = tb) ∧ ((∀ tb, ¬ S.Sends u tb) → u.dlTbSize = 0)

theorem not_sends_of_nil {u : UeInfo} (h : u.dlRBG = []) (tb : ℕ) : ¬ S.Sends u tb :=
  fun hs => hs.1 h

theorem tbSizeNow_of_mcs {u : UeInfo} {mcs : ℕ} (hne : u.dlRBG ≠ [])
    (h : u.getDlMcs S.dlAmc = .ok mcs) :
    u.tbSizeNow S.dlAmc S.numRbPerRbg = .ok (S.tbSizeAt u mcs) := by
  unfold UeInfo.tbSizeNow
  rw [if_neg (by simpa using hne), h]
  rfl

theorem exists_dciMcs {u : UeInfo} {mcs : ℕ} (h : u.getDlMcs S.dlAmc = .ok mcs) :
    ∃ cap, S.dciMcs u = .ok cap := by
  unfold dciMcs
  rw [h, ok_bind]
  cases S.fhControl with
  | none => exact ⟨mcs, rfl⟩
  | some fh => exact ⟨_, rfl⟩

/-- What a UE with RBGs that are kept sends. -/
theorem AfterLoop.sends_iff {s : BeamState} {queries : List FhQuery} {ue : UePtrAndBufferReq}
    {v w : UeInfo} (hv : AfterLoop S s queries ue v) (hw : SameSizes S v w)
    (hr : ¬ S.Refused s queries ue) (hne : (s.ueOf ue).dlRBG ≠ []) {cap : ℕ}
    (hcap : S.dciMcs (s.ueOf ue) = .ok cap) (tb : ℕ) :
    S.Sends w tb ↔ tb = S.tbSizeAt (s.ueOf ue) cap ∧ 10 ≤ S.tbSizeAt (s.ueOf ue) cap := by
  obtain ⟨h1, h2, h3⟩ := hv.kept hne hr
  have hnow : w.tbSizeNow S.dlAmc S.numRbPerRbg = .ok (S.tbSizeAt (s.ueOf ue) cap) := by
    rw [hw.tbSizeNow, tbSizeNow_of_mcs (h1 ▸ hne) (h3.trans hcap)]
    unfold tbSizeAt
    rw [h1, h2]
  have hrbg : w.dlRBG ≠ [] := by
    rw [hw.dlRBG, h1]
    exact hne
  unfold Sends
  rw [hnow, Except.ok.injEq]
  constructor
  · rintro ⟨_, rfl, h⟩
    exact ⟨rfl, h⟩
  · rintro ⟨rfl, h⟩
    exact ⟨hrbg, rfl, h⟩

theorem sizeKept_refused {s : BeamState} {queries : List FhQuery} {ue : UePtrAndBufferReq}
    {mcs : ℕ} (hr : S.Refused s queries ue) (hmcs : (s.ueOf ue).getDlMcs S.dlAmc = .ok mcs) :
    S.SizeKept s queries ue ↔ S.tbSizeAt (s.ueOf ue) mcs = 0 := by
  refine ⟨fun h => h.freed hr mcs hmcs, fun h => ⟨fun _ mcs' hmcs' => ?_, fun hk => absurd hr hk,
    fun hk => absurd hr hk⟩⟩
  rw [hmcs] at hmcs'
  cases hmcs'
  exact h

theorem sizeKept_kept {s : BeamState} {queries : List FhQuery} {ue : UePtrAndBufferReq}
    {mcs cap : ℕ} (hr : ¬ S.Refused s queries ue) (hne : (s.ueOf ue).dlRBG ≠ [])
    (hmcs : (s.ueOf ue).getDlMcs S.dlAmc = .ok mcs) (hcap : S.dciMcs (s.ueOf ue) = .ok cap) :
    S.SizeKept s queries ue ↔
      (10 ≤ S.tbSizeAt (s.ueOf ue) cap →
        S.tbSizeAt (s.ueOf ue) cap = S.tbSizeAt (s.ueOf ue) mcs) ∧
      (S.tbSizeAt (s.ueOf ue) cap < 10 → S.tbSizeAt (s.ueOf ue) mcs = 0) := by
  constructor
  · intro h
    exact ⟨h.capped hr hne mcs cap hmcs hcap, h.dropped hr hne mcs cap hmcs hcap⟩
  · rintro ⟨hge, hlt⟩
    refine ⟨fun hr' => absurd hr' hr, fun _ _ mcs' cap' hmcs' hcap' => ?_,
      fun _ _ mcs' cap' hmcs' hcap' => ?_⟩
    · cases hmcs.symm.trans hmcs'
      cases hcap.symm.trans hcap'
      exact hge
    · cases hmcs.symm.trans hmcs'
      cases hcap.symm.trans hcap'
      exact hlt

/-- A UE is credited with what it sends exactly if its size is kept after the loop. -/
theorem creditedAsSent_iff {ues : List UePtrAndBufferReq} {s : BeamState} {queries : List FhQuery}
    {ue : UePtrAndBufferReq} {v w : UeInfo} (hok : EndOk S ues s) (hue : ue ∈ ues)
    (hv : AfterLoop S s queries ue v) (hw : SameSizes S v w) :
    CreditedAsSent S w ↔ S.SizeKept s queries ue := by
  have hsize : w.dlTbSize = (s.ueOf ue).dlTbSize := hw.dlTbSize.trans hv.dlTbSize
  by_cases hnil : (s.ueOf ue).dlRBG = []
  · have hno := not_sends_of_nil (S := S) (hw.dlRBG.trans (hv.nil hnil))
    have hzero : (s.ueOf ue).dlTbSize = 0 := Ledger.dlTbSize_of_nil (hok.metric ue hue) hnil
    constructor
    · intro _
      refine ⟨fun hr => ?_, fun _ hne => absurd hnil hne, fun _ hne => absurd hnil hne⟩
      exact absurd hnil (refused_ne_nil hr)
    · exact fun _ => ⟨fun tb h => absurd h (hno tb), fun _ => hsize.trans hzero⟩
  obtain ⟨mcs, hmcs, htb⟩ := (hok.metric ue hue).exists_mcs hnil
  have hcredit : w.dlTbSize = S.tbSizeAt (s.ueOf ue) mcs := hsize.trans htb
  by_cases hr : S.Refused s queries ue
  · have hno := not_sends_of_nil (S := S) (hw.dlRBG.trans (hv.refused hr))
    rw [sizeKept_refused hr hmcs, ← hcredit]
    exact ⟨fun h => h.2 hno, fun h => ⟨fun tb ht => absurd ht (hno tb), fun _ => h⟩⟩
  · obtain ⟨cap, hcap⟩ := exists_dciMcs hmcs
    have hsends := hv.sends_iff hw hr hnil hcap
    rw [sizeKept_kept hr hnil hmcs hcap, ← hcredit]
    constructor
    · intro h
      refine ⟨fun hge => (h.1 _ ((hsends _).mpr ⟨rfl, hge⟩)).symm, fun hlt => h.2 fun tb ht => ?_⟩
      have := ((hsends tb).mp ht).2
      omega
    · rintro ⟨hge, hlt⟩
      refine ⟨fun tb ht => ?_, fun hno => hlt ?_⟩
      · obtain ⟨rfl, hten⟩ := (hsends tb).mp ht
        exact (hge hten).symm
      · by_contra hten
        exact hno _ ((hsends _).mpr ⟨rfl, by omega⟩)

end Scheduler

/-! ### The DCIs of the slot -/

/-- The DCIs `dcis` are those made for the UEs `l` in the heap `ues`. -/
structure DcisFor (S : Scheduler) (ues : UePtr → UeInfo) (l : List UePtrAndBufferReq)
    (dcis : List VarTtiAllocInfo) : Prop where
  only : ∀ v ∈ dcis, ∃ ue ∈ l, v.dci.rnti = (ues ue.1).rnti ∧ S.Sends (ues ue.1) v.dci.tbSize
  all : ∀ ue ∈ l, ∀ tb, S.Sends (ues ue.1) tb →
    ∃ v ∈ dcis, v.dci.rnti = (ues ue.1).rnti ∧ v.dci.tbSize = tb

namespace DcisFor

variable {S : Scheduler} {ues ues' : UePtr → UeInfo} {l l' : List UePtrAndBufferReq}
  {dcis dcis' : List VarTtiAllocInfo}

theorem of_nil (h : ∀ ue ∈ l, (ues ue.1).dlRBG = []) : DcisFor S ues l [] :=
  ⟨fun _ hv => absurd hv List.not_mem_nil,
    fun ue hue tb hs => absurd hs (Scheduler.not_sends_of_nil (h ue hue) tb)⟩

theorem append (h : DcisFor S ues l dcis) (h' : DcisFor S ues l' dcis') :
    DcisFor S ues (l ++ l') (dcis ++ dcis') := by
  refine ⟨fun v hv => ?_, fun ue hue tb hs => ?_⟩
  · obtain hv | hv := List.mem_append.mp hv
    · obtain ⟨ue, hue, hd⟩ := h.only v hv
      exact ⟨ue, List.mem_append_left _ hue, hd⟩
    · obtain ⟨ue, hue, hd⟩ := h'.only v hv
      exact ⟨ue, List.mem_append_right _ hue, hd⟩
  · obtain hue | hue := List.mem_append.mp hue
    · obtain ⟨v, hv, hd⟩ := h.all ue hue tb hs
      exact ⟨v, List.mem_append_left _ hv, hd⟩
    · obtain ⟨v, hv, hd⟩ := h'.all ue hue tb hs
      exact ⟨v, List.mem_append_right _ hv, hd⟩

theorem congr (h : DcisFor S ues l dcis) (hues : ∀ ue ∈ l, ues' ue.1 = ues ue.1) :
    DcisFor S ues' l dcis := by
  refine ⟨fun v hv => ?_, fun ue hue tb hs => ?_⟩
  · obtain ⟨ue, hue, hd⟩ := h.only v hv
    refine ⟨ue, hue, ?_⟩
    rw [hues ue hue]
    exact hd
  · rw [hues ue hue] at hs ⊢
    exact h.all ue hue tb hs

end DcisFor

namespace DlScheduler

variable {D : DlScheduler} {harqId : UePtr → Option ℕ} {spoint : FTResources} {beamSym : ℕ}

/-- `CreateDlDci` makes a DCI of the size that the UE sends. -/
theorem createDlDci_sends {u v : UeInfo} {dci : Option DciInfoElementTdma} (hne : u.dlRBG ≠ [])
    (h : D.createDlDci spoint u beamSym = .ok (dci, v)) (tb : ℕ) :
    D.Sends u tb ↔ ∃ d, dci = some d ∧ d.tbSize = tb := by
  obtain ⟨mcs, tbs, hmcs, htbs, hcases⟩ := createDlDci_cases h
  have hnow : u.tbSizeNow D.dlAmc D.numRbPerRbg = .ok tbs := by
    rw [Scheduler.tbSizeNow_of_mcs hne hmcs, htbs]
    rfl
  unfold Scheduler.Sends
  rw [hnow, Except.ok.injEq]
  obtain ⟨hlt, rfl⟩ | ⟨hge, d, rfl, _, hsize⟩ := hcases
  · constructor
    · rintro ⟨_, rfl, hge⟩
      omega
    · rintro ⟨d, hd, _⟩
      cases hd
  · constructor
    · rintro ⟨_, rfl, _⟩
      exact ⟨d, rfl, hsize⟩
    · rintro ⟨d', hd, rfl⟩
      cases hd
      exact ⟨hne, hsize.symm, hsize ▸ hge⟩

theorem scheduleUe_dcis {s t : DlUeLoop} {ue : UePtrAndBufferReq}
    (h : D.scheduleUe harqId spoint beamSym s ue = .ok t) :
    ∃ part, t.varTtiAllocInfo = s.varTtiAllocInfo ++ part ∧
      DcisFor D.toScheduler s.ues [ue] part := by
  cases scheduleUe_cases h with
  | idle hnil =>
      refine ⟨[], (List.append_nil _).symm, .of_nil fun u hu => ?_⟩
      rw [List.mem_singleton.mp hu]
      exact hnil
  | dropped hne hdci =>
      refine ⟨[], (List.append_nil _).symm, fun v hv => absurd hv List.not_mem_nil,
        fun u hu tb hs => ?_⟩
      rw [List.mem_singleton.mp hu] at hs
      obtain ⟨d, hd, _⟩ := (createDlDci_sends hne hdci tb).mp hs
      cases hd
  | @sent _ _ dci _ _ hne hdci =>
      have hd := createDlDci_ok hdci
      have hsends := createDlDci_sends hne hdci
      refine ⟨_, rfl, fun v hv => ⟨ue, List.mem_singleton.mpr rfl, ?_⟩,
        fun u hu tb hs => ⟨_, List.mem_singleton.mpr rfl, ?_⟩⟩
      · rw [List.mem_singleton.mp hv]
        exact ⟨hd.rnti, (hsends _).mpr ⟨dci, rfl, rfl⟩⟩
      · rw [List.mem_singleton.mp hu] at hs ⊢
        obtain ⟨d, hsome, htb⟩ := (hsends tb).mp hs
        cases hsome
        exact ⟨hd.rnti, htb⟩

theorem scheduleUes_dcis : ∀ {l : List UePtrAndBufferReq} {s t : DlUeLoop},
    (l.map Prod.fst).Nodup → l.foldlM (D.scheduleUe harqId spoint beamSym) s = .ok t →
      ∃ part, t.varTtiAllocInfo = s.varTtiAllocInfo ++ part ∧
        DcisFor D.toScheduler s.ues l part
  | [], s, t, _, h => by
      cases h
      exact ⟨[], (List.append_nil _).symm, .of_nil fun u hu => absurd hu List.not_mem_nil⟩
  | ue :: l, s, t, hn, h => by
      rw [List.map_cons, List.nodup_cons] at hn
      rw [List.foldlM_cons] at h
      obtain ⟨s₁, h1, h2⟩ := bind_eq_ok.mp h
      obtain ⟨part, hpart, hdcis⟩ := scheduleUe_dcis h1
      obtain ⟨part', hpart', hdcis'⟩ := scheduleUes_dcis hn.2 h2
      refine ⟨part ++ part', by rw [hpart', hpart, List.append_assoc], ?_⟩
      refine hdcis.append (hdcis'.congr fun u hu => ?_)
      refine ((scheduleUe_ok h1).others u.1 fun e => hn.1 ?_).symm
      rw [← e]
      exact List.mem_map_of_mem hu

/-- **The DCIs of the beams**, which are the DCIs of their UEs when the UEs of the beams without
symbols have no RBGs. -/
theorem scheduleBeams_dcis {symPerBeam : BeamSymbolMap} : ∀ {l : ActiveUeMap} {s t : DlBeamLoop},
    (Scheduler.pointers l).Nodup →
      (∀ el ∈ l, symPerBeam.getD el.1 0 = 0 → ∀ ue ∈ el.2, (s.ues ue.1).dlRBG = []) →
      l.foldlM (D.scheduleBeam harqId symPerBeam) s = .ok t →
      ∃ dcis, t.slotAlloc.varTtiAllocInfo = s.slotAlloc.varTtiAllocInfo ++ dcis ∧
        DcisFor D.toScheduler s.ues (l.flatMap Prod.snd) dcis
  | [], s, t, _, _, h => by
      cases h
      exact ⟨[], (List.append_nil _).symm, .of_nil fun u hu => absurd hu List.not_mem_nil⟩
  | el :: l, s, t, hn, hz, h => by
      unfold Scheduler.pointers at hn
      rw [List.flatMap_cons, List.nodup_append] at hn
      rw [List.foldlM_cons] at h
      obtain ⟨s₁, h1, h2⟩ := bind_eq_ok.mp h
      obtain ⟨_, hround⟩ := scheduleBeam_ok hn.1 h1
      have hsame : ∀ el' ∈ l, ∀ ue ∈ el'.2, s₁.ues ue.1 = s.ues ue.1 := by
        intro el' hel' ue hue
        refine hround.others ue.1 fun hm => hn.2.2 ue.1 hm ue.1 ?_ rfl
        exact List.mem_flatMap.mpr ⟨el', hel', List.mem_map_of_mem hue⟩
      obtain ⟨dcis', hdcis', hfor'⟩ := scheduleBeams_dcis hn.2.1 (fun el' hel' hb ue hue => by
        rw [hsame el' hel' ue hue]
        exact hz el' (List.mem_cons_of_mem el hel') hb ue hue) h2
      have hfirst : ∃ part, s₁.slotAlloc.varTtiAllocInfo = s.slotAlloc.varTtiAllocInfo ++ part ∧
          DcisFor D.toScheduler s.ues el.2 part := by
        obtain ⟨hb, rfl⟩ | ⟨_, r, hr, _, hvar, _⟩ := scheduleBeam_cases rfl h1
        · exact ⟨[], (List.append_nil _).symm, .of_nil (hz el List.mem_cons_self hb)⟩
        · obtain ⟨part, hpart, hfor⟩ := scheduleUes_dcis hn.1 hr
          exact ⟨part, hvar.trans hpart, hfor⟩
      obtain ⟨part, hpart, hfor⟩ := hfirst
      refine ⟨part ++ dcis', by rw [hdcis', hpart, List.append_assoc], ?_⟩
      rw [List.flatMap_cons]
      refine hfor.append (hfor'.congr fun ue hue => ?_)
      obtain ⟨el', hel', hue⟩ := List.mem_flatMap.mp hue
      exact (hsame el' hel' ue hue).symm

end DlScheduler

/-! ### Credited and sent -/

/-- The inputs of a call of `DoScheduleDlData` with the UEs of `m_ueMap`. -/
structure UeMapSlot extends DlSlotStart where
  /-- `m_ueMap` has one UE for an RNTI. -/
  rnti_inj : ∀ p ∈ Scheduler.pointers activeDl, ∀ q ∈ Scheduler.pointers activeDl,
    (world.ues p).rnti = (world.ues q).rnti → p = q
  /-- `ResetDlSchedInfo` ended the last slot of every UE that is not active. -/
  idle : ∀ p, p ∉ Scheduler.pointers activeDl → (world.ues p).dlTbSize = 0

/-- The `m_dlTbSize` that the virtual queue of a UE is credited with at the end of
`AssignDLRBG`, in the world `w`, is the size of the DCI made for the UE in the slot, and zero
without one. -/
structure CreditedIsSent (i : DlSlotStart) (w : World) (dcis : List VarTtiAllocInfo) : Prop where
  sent : ∀ p ∈ Scheduler.pointers i.activeDl, ∀ v ∈ dcis,
    v.dci.rnti = (i.world.ues p).rnti → (w.ues p).dlTbSize = v.dci.tbSize
  unsent : ∀ p, (∀ v ∈ dcis, v.dci.rnti ≠ (i.world.ues p).rnti) → (w.ues p).dlTbSize = 0

namespace Scheduler

variable {S : Scheduler} {now : ℚ} {i : SlotStart}

theorem mem_pointers {l : ActiveUeMap} {el : BeamId × List UePtrAndBufferReq} (hel : el ∈ l)
    {ue : UePtrAndBufferReq} (hue : ue ∈ el.2) : ue.1 ∈ pointers l :=
  List.mem_flatMap.mpr ⟨el, hel, List.mem_map_of_mem hue⟩

theorem exists_of_mem_pointers {l : ActiveUeMap} {p : UePtr} (h : p ∈ pointers l) :
    ∃ el ∈ l, ∃ ue ∈ el.2, ue.1 = p := by
  obtain ⟨el, hel, hp⟩ := List.mem_flatMap.mp h
  obtain ⟨ue, hue, he⟩ := List.mem_map.mp hp
  exact ⟨el, hel, ue, hue, he⟩

theorem mem_of_loopEnd {el : BeamId × List UePtrAndBufferReq} {s : BeamState}
    {queries : List FhQuery} (h : S.LoopEnd now i el s queries) : el ∈ i.activeDl := by
  obtain ⟨pre, post, _, _, hi, _⟩ := h
  rw [hi]
  exact List.mem_append_cons_self

theorem dlTbSize_of_inactive {w : World} {symPerBeam : BeamSymbolMap}
    (h : S.assignDLRBG now i.world i.symAvail i.activeDl = .ok (w, symPerBeam)) {p : UePtr}
    (hp : p ∉ pointers i.activeDl) : (w.ues p).dlTbSize = (i.world.ues p).dlTbSize := by
  obtain ⟨acc, hacc, hclose⟩ := assignDLRBG_closed h
  rw [(hclose p).dlTbSize, (assignBeams_frame i.nodup i.clean hacc).others p hp]

end Scheduler

/-- The DCIs of an active UE are those of the size it sends. -/
theorem sends_iff (D : DlScheduler) (harqId : UePtr → Option ℕ) (now : ℚ) (i : UeMapSlot)
    {w : World} {symPerBeam : BeamSymbolMap} {r : World × FTResources × SlotAllocInfo × ℕ}
    {dcis : List VarTtiAllocInfo}
    (hassign : D.assignDLRBG now i.world i.symAvail i.activeDl = .ok (w, symPerBeam))
    (h : D.doScheduleDlData harqId now i.world i.spoint i.symAvail i.activeDl i.slotAlloc = .ok r)
    (hdcis : r.2.2.1.varTtiAllocInfo = i.slotAlloc.varTtiAllocInfo ++ dcis) :
    ∀ el ∈ i.activeDl, ∀ ue ∈ el.2, ∀ tb, D.Sends (w.ues ue.1) tb ↔
      ∃ v ∈ dcis, v.dci.rnti = (i.world.ues ue.1).rnti ∧ v.dci.tbSize = tb := by
  have hrnti := Scheduler.assignDLRBG_rnti hassign
  obtain ⟨w', spoint', slotAlloc', usedSym⟩ := r
  obtain ⟨r₁, s, hassign', hbeams, _, _, rfl, _⟩ := DlScheduler.doScheduleDlData_ok h
  rw [hassign] at hassign'
  cases hassign'
  have hz : ∀ el ∈ i.activeDl, symPerBeam.getD el.1 0 = 0 → ∀ ue ∈ el.2,
      (w.ues ue.1).dlRBG = [] := by
    intro el hel hb ue hue
    obtain ⟨runs, hblocks, _⟩ := Scheduler.assignDLRBG_blocks hassign hel
    rw [hblocks ue hue, ← Scheduler.assignDLRBG_symPerBeam hassign, hb, blocks_zero]
  obtain ⟨dcis', hdcis', hfor⟩ := DlScheduler.scheduleBeams_dcis i.nodup hz hbeams
  have heq : dcis = dcis' := List.append_cancel_left (hdcis.symm.trans hdcis')
  subst heq
  intro el hel ue hue tb
  constructor
  · intro hs
    obtain ⟨v, hv, hr, htb⟩ := hfor.all ue (List.mem_flatMap.mpr ⟨el, hel, hue⟩) tb hs
    exact ⟨v, hv, hr.trans (hrnti ue.1), htb⟩
  · rintro ⟨v, hv, hr, rfl⟩
    obtain ⟨ue', hue', hr', hs⟩ := hfor.only v hv
    obtain ⟨el', hel', hue'⟩ := List.mem_flatMap.mp hue'
    have hsame : (i.world.ues ue'.1).rnti = (i.world.ues ue.1).rnti := by
      rw [← hr, hr']
      exact (hrnti ue'.1).symm
    rw [← i.rnti_inj ue'.1 (Scheduler.mem_pointers hel' hue') ue.1
      (Scheduler.mem_pointers hel hue) hsame]
    exact hs

/-- **Throughput.** The credited size is the size sent exactly if what follows the loops of the
beams keeps the sizes of their UEs. -/
theorem creditedIsSent_iff (D : DlScheduler) (harqId : UePtr → Option ℕ) (now : ℚ) (i : UeMapSlot)
    {w : World} {symPerBeam : BeamSymbolMap} {r : World × FTResources × SlotAllocInfo × ℕ}
    {dcis : List VarTtiAllocInfo}
    (hassign : D.assignDLRBG now i.world i.symAvail i.activeDl = .ok (w, symPerBeam))
    (h : D.doScheduleDlData harqId now i.world i.spoint i.symAvail i.activeDl i.slotAlloc = .ok r)
    (hdcis : r.2.2.1.varTtiAllocInfo = i.slotAlloc.varTtiAllocInfo ++ dcis) :
    CreditedIsSent i.toDlSlotStart w dcis ↔
      ∀ el s queries, D.LoopEnd now i.toSlotStart el s queries →
        ∀ ue ∈ el.2, D.SizeKept s queries ue := by
  have hsends := sends_iff D harqId now i hassign h hdcis
  have hue : ∀ el s queries, D.LoopEnd now i.toSlotStart el s queries → ∀ ue ∈ el.2,
      (Scheduler.CreditedAsSent D.toScheduler (w.ues ue.1) ↔ D.SizeKept s queries ue) := by
    intro el s queries hend ue hue
    obtain ⟨v, hv, hw⟩ := Scheduler.assignDLRBG_afterLoop hassign hend hue
    exact Scheduler.creditedAsSent_iff (Scheduler.loopEnd_ok hend) hue hv hw
  constructor
  · intro hc el s queries hend ue hmem
    have hel := Scheduler.mem_of_loopEnd hend
    refine (hue el s queries hend ue hmem).mp ⟨fun tb ht => ?_, fun hno => ?_⟩
    · obtain ⟨v, hv, hr, htb⟩ := (hsends el hel ue hmem tb).mp ht
      rw [← htb]
      exact hc.sent ue.1 (Scheduler.mem_pointers hel hmem) v hv hr
    · refine hc.unsent ue.1 fun v hv hr => hno v.dci.tbSize ?_
      exact (hsends el hel ue hmem _).mpr ⟨v, hv, hr, rfl⟩
  · intro hk
    have hactive : ∀ el ∈ i.activeDl, ∀ ue ∈ el.2,
        Scheduler.CreditedAsSent D.toScheduler (w.ues ue.1) := by
      intro el hel ue hmem
      obtain ⟨s, queries, hend⟩ := Scheduler.exists_loopEnd hassign hel
      exact (hue el s queries hend ue hmem).mpr (hk el s queries hend ue hmem)
    refine ⟨fun p hp v hv hr => ?_, fun p hno => ?_⟩
    · obtain ⟨el, hel, ue, hmem, rfl⟩ := Scheduler.exists_of_mem_pointers hp
      exact (hactive el hel ue hmem).1 _ ((hsends el hel ue hmem _).mpr ⟨v, hv, hr, rfl⟩)
    · by_cases hp : p ∈ Scheduler.pointers i.activeDl
      · obtain ⟨el, hel, ue, hmem, rfl⟩ := Scheduler.exists_of_mem_pointers hp
        refine (hactive el hel ue hmem).2 fun tb ht => ?_
        obtain ⟨v, hv, hr, _⟩ := (hsends el hel ue hmem tb).mp ht
        exact hno v hv hr
      · rw [Scheduler.dlTbSize_of_inactive hassign hp]
        exact i.idle p hp

/-- Two UEs in one beam, and no other UE. -/
def UeMapSlot.oneBeam : UeMapSlot :=
  { DlSlotStart.oneBeam with
    rnti_inj := fun _ _ _ _ h => Nat.succ.inj h
    idle := fun _ _ => rfl }

/-- Without fronthaul control and with transport blocks of 60 bytes, what is credited is sent. -/
theorem creditedIsSent_oneBeam : ∃ w symPerBeam r dcis,
    DlScheduler.twoRbgs.assignDLRBG 0 UeMapSlot.oneBeam.world UeMapSlot.oneBeam.symAvail
        UeMapSlot.oneBeam.activeDl = .ok (w, symPerBeam) ∧
      DlScheduler.twoRbgs.doScheduleDlData (fun _ => some 0) 0 UeMapSlot.oneBeam.world
        UeMapSlot.oneBeam.spoint UeMapSlot.oneBeam.symAvail UeMapSlot.oneBeam.activeDl
        UeMapSlot.oneBeam.slotAlloc = .ok r ∧
      r.2.2.1.varTtiAllocInfo = UeMapSlot.oneBeam.slotAlloc.varTtiAllocInfo ++ dcis ∧
      CreditedIsSent UeMapSlot.oneBeam.toDlSlotStart w dcis ∧
      ∀ el s queries, DlScheduler.twoRbgs.LoopEnd 0 UeMapSlot.oneBeam.toSlotStart el s queries →
        ∀ ue ∈ el.2, DlScheduler.twoRbgs.SizeKept s queries ue := by
  obtain ⟨⟨w, symPerBeam⟩, hassign⟩ := exists_of_isOk
    (x := DlScheduler.twoRbgs.assignDLRBG 0 UeMapSlot.oneBeam.world UeMapSlot.oneBeam.symAvail
      UeMapSlot.oneBeam.activeDl) (by decide +kernel)
  obtain ⟨r, h⟩ := exists_of_isOk
    (x := DlScheduler.twoRbgs.doScheduleDlData (fun _ => some 0) 0 UeMapSlot.oneBeam.world
      UeMapSlot.oneBeam.spoint UeMapSlot.oneBeam.symAvail UeMapSlot.oneBeam.activeDl
      UeMapSlot.oneBeam.slotAlloc) (by decide +kernel)
  have hsize : Except.map (fun a => ((a.1.ues 0).dlTbSize, (a.1.ues 1).dlTbSize))
      (DlScheduler.twoRbgs.assignDLRBG 0 UeMapSlot.oneBeam.world UeMapSlot.oneBeam.symAvail
        UeMapSlot.oneBeam.activeDl) = .ok (60, 60) := by
    decide +kernel
  have hdci : Except.map (fun a => a.2.2.1.varTtiAllocInfo.map fun v => (v.dci.rnti, v.dci.tbSize))
      (DlScheduler.twoRbgs.doScheduleDlData (fun _ => some 0) 0 UeMapSlot.oneBeam.world
        UeMapSlot.oneBeam.spoint UeMapSlot.oneBeam.symAvail UeMapSlot.oneBeam.activeDl
        UeMapSlot.oneBeam.slotAlloc) = .ok [(1, 60), (2, 60)] := by
    decide +kernel
  rw [hassign] at hsize
  rw [h] at hdci
  obtain ⟨h0, h1⟩ := Prod.mk.inj (Except.ok.inj hsize)
  have hmem : ∀ rnti tb, (∃ v ∈ r.2.2.1.varTtiAllocInfo, v.dci.rnti = rnti ∧ v.dci.tbSize = tb) ↔
      (rnti, tb) ∈ [(1, 60), (2, 60)] := by
    intro rnti tb
    rw [← Except.ok.inj hdci, List.mem_map]
    simp only [Prod.mk.injEq]
  have hpointers : ∀ p ∈ Scheduler.pointers UeMapSlot.oneBeam.activeDl, p = 0 ∨ p = 1 := by decide
  have hsent : CreditedIsSent UeMapSlot.oneBeam.toDlSlotStart w r.2.2.1.varTtiAllocInfo := by
    refine ⟨fun p hp v hv hr => ?_, fun p hno => ?_⟩
    · have htb : (p + 1, v.dci.tbSize) ∈ [(1, 60), (2, 60)] := (hmem _ _).mp ⟨v, hv, hr, rfl⟩
      obtain rfl | rfl := hpointers p hp
      · have h60 : v.dci.tbSize = 60 := by simpa using htb
        exact h0.trans h60.symm
      · have h60 : v.dci.tbSize = 60 := by simpa using htb
        exact h1.trans h60.symm
    · have hne : ∀ tb, (p + 1, tb) ∉ [(1, 60), (2, 60)] := fun tb htb => by
        obtain ⟨v, hv, hr, _⟩ := (hmem _ _).mpr htb
        exact hno v hv hr
      have hp : p ∉ Scheduler.pointers UeMapSlot.oneBeam.activeDl := by
        intro hp
        obtain rfl | rfl := hpointers p hp
        · exact hne 60 (by decide)
        · exact hne 60 (by decide)
      rw [Scheduler.dlTbSize_of_inactive hassign hp]
      rfl
  exact ⟨w, symPerBeam, r, _, hassign, h, rfl, hsent,
    (creditedIsSent_iff .twoRbgs (fun _ => some 0) 0 .oneBeam hassign h rfl).mp hsent⟩

/-- A fronthaul without capacity, which postpones every allocation. -/
def DlScheduler.noFronthaul : DlScheduler :=
  { DlScheduler.twoRbgs with
    fhControl := some ⟨.postponing, fun _ _ _ => 0, fun _ _ _ => 0, fun _ _ => false⟩ }

/-- The RBGs of both UEs are taken back and no DCI is made, but their virtual queues are credited
with 60 bytes each. -/
theorem not_creditedIsSent_postponed : ∃ w symPerBeam r,
    DlScheduler.noFronthaul.assignDLRBG 0 UeMapSlot.oneBeam.world UeMapSlot.oneBeam.symAvail
        UeMapSlot.oneBeam.activeDl = .ok (w, symPerBeam) ∧
      DlScheduler.noFronthaul.doScheduleDlData (fun _ => some 0) 0 UeMapSlot.oneBeam.world
        UeMapSlot.oneBeam.spoint UeMapSlot.oneBeam.symAvail UeMapSlot.oneBeam.activeDl
        UeMapSlot.oneBeam.slotAlloc = .ok r ∧
      r.2.2.1.varTtiAllocInfo = UeMapSlot.oneBeam.slotAlloc.varTtiAllocInfo ++ [] ∧
      ¬ CreditedIsSent UeMapSlot.oneBeam.toDlSlotStart w [] := by
  obtain ⟨⟨w, symPerBeam⟩, hassign⟩ := exists_of_isOk
    (x := DlScheduler.noFronthaul.assignDLRBG 0 UeMapSlot.oneBeam.world UeMapSlot.oneBeam.symAvail
      UeMapSlot.oneBeam.activeDl) (by decide +kernel)
  obtain ⟨r, h⟩ := exists_of_isOk
    (x := DlScheduler.noFronthaul.doScheduleDlData (fun _ => some 0) 0 UeMapSlot.oneBeam.world
      UeMapSlot.oneBeam.spoint UeMapSlot.oneBeam.symAvail UeMapSlot.oneBeam.activeDl
      UeMapSlot.oneBeam.slotAlloc) (by decide +kernel)
  have hsize : Except.map (fun a => (a.1.ues 0).dlTbSize)
      (DlScheduler.noFronthaul.assignDLRBG 0 UeMapSlot.oneBeam.world UeMapSlot.oneBeam.symAvail
        UeMapSlot.oneBeam.activeDl) = .ok 60 := by
    decide +kernel
  have hdcis : Except.map (fun a => a.2.2.1.varTtiAllocInfo.length)
      (DlScheduler.noFronthaul.doScheduleDlData (fun _ => some 0) 0 UeMapSlot.oneBeam.world
        UeMapSlot.oneBeam.spoint UeMapSlot.oneBeam.symAvail UeMapSlot.oneBeam.activeDl
        UeMapSlot.oneBeam.slotAlloc) = .ok 0 := by
    decide +kernel
  rw [hassign] at hsize
  rw [h] at hdcis
  refine ⟨w, symPerBeam, r, hassign, h, List.eq_nil_of_length_eq_zero (Except.ok.inj hdcis),
    fun hc => ?_⟩
  have hzero := hc.unsent 0 fun v hv => absurd hv List.not_mem_nil
  rw [show (w.ues 0).dlTbSize = 60 from Except.ok.inj hsize] at hzero
  cases hzero

end Rbis
