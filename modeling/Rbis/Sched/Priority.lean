import Rbis.Lib.Introsort
import Rbis.Sched.Admission
import Rbis.Sched.WeightOrder

/-! # Priority and work conservation

Without fronthaul control the allocation loop of a beam starts with its UEs sorted by weight, and
the iterator walks through them: every admitted UE is settled (satisfied, rejected or reaped), or
has its turn to come (`HasTurn`), so that none waits while one with a larger weight is served.  The
reaping rounds sort the vector by `m_dlTbSize`, keep the iterator and do not sort by weight again.
That does harm only if a round frees the RBGs of its victim with the iterator still inside the
vector (`ReusesIterator`) and takes the turn of another admitted UE that waits.  In every call
without such a round priority is strict and no RBG is left while an admitted UE waits
(`strictPriority_of_turnsKept`).  There is none when every allocation has a transport block
(`turnsKept_of_tbSize_pos`), nor when the sort keeps the order of equal elements
(`turnsKept_of_stable`), as the one of libstdc++ does up to sixteen UEs. -/

namespace Rbis

open Cxx Fallible

namespace Scheduler

variable (S : Scheduler) (st : DppaStatics) (beamSym : ℕ)

/-- The loop after `n` steps. -/
def stateAt (s : BeamState) (n : ℕ) : BeamState := (S.step st beamSym)^[n] s

/-- The attempt for the UE `ue` fails in the next step. -/
def Rejects (t : BeamState) (ue : UePtrAndBufferReq) : Prop :=
  ∃ prevRemaining b, t.pc = .serve prevRemaining true ∧
    t.ueVector[S.nextIt beamSym t]? = some ue ∧
    S.attemptAllocationOfCurrentResourceToUe ue.1 beamSym t.alloc = .ok (false, b)

/-- The next step is a reaping round that pops the UE `ue`. -/
def Reaps (t : BeamState) (ue : UePtrAndBufferReq) : Prop :=
  t.pc = .reap ∧ S.reapVictim t = some ue

/-- After `n` steps from `s` the UE has what it needs, or had an attempt rejected, or was
reaped. -/
inductive Settled (s : BeamState) (n : ℕ) (ue : UePtrAndBufferReq) : Prop
  | satisfied (h : satisfied ((S.stateAt st beamSym s n).ueOf ue) ue.2 = true)
  | rejected (m : ℕ) (hm : m < n) (h : S.Rejects beamSym (S.stateAt st beamSym s m) ue)
  | reaped (m : ℕ) (hm : m < n) (h : S.Reaps (S.stateAt st beamSym s m) ue)

/-- The reaping round at `t` frees RBGs of its victim, and the loop goes on to give them with
the iterator where it was. -/
structure ReusesIterator (t : BeamState) (victim : UePtrAndBufferReq) : Prop where
  reaps : S.Reaps t victim
  goes : t.reapingResources = true
  empty : t.alloc.remainingRbgSet = []
  held : (t.ueOf victim).dlRBG ≠ []
  inside : t.schedInfoIt + 1 < t.ueVector.length

/-- The UE stands at the iterator or behind it, with no UE of a larger weight between.  The weights
are those of `s`. -/
def HasTurn (s t : BeamState) (ue : UePtrAndBufferReq) : Prop :=
  ∃ m, t.schedInfoIt ≤ m ∧ t.ueVector[m]? = some ue ∧
    ∀ j other, t.schedInfoIt ≤ j → j < m → t.ueVector[j]? = some other →
      Dbl.lt (s.ueOf ue).k (s.ueOf other).k = false

end Scheduler

/-- In every beam with symbols: an RBG is given to a UE only when every admitted UE with a
smaller weight is settled, and when the loop ends with RBGs left, every admitted UE is. -/
structure StrictPriority (S : Scheduler) (now : ℚ) (i : SlotStart) : Prop where
  grants : ∀ st beamSym s, S.LoopEntry now i st beamSym s → 0 < beamSym →
    ∀ n, ∀ served ∈ s.ueVector,
      ((S.stateAt st beamSym s n).ueOf served).dlRBG.length <
          ((S.stateAt st beamSym s (n + 1)).ueOf served).dlRBG.length →
        ∀ ue ∈ s.ueVector, Dbl.lt (s.ueOf ue).k (s.ueOf served).k = true →
          (s.ueOf ue).admitted st = true → S.Settled st beamSym s n ue
  finish : ∀ st beamSym s, S.LoopEntry now i st beamSym s → 0 < beamSym →
    ∀ n, (S.stateAt st beamSym s n).pc = .finished →
      (S.stateAt st beamSym s n).alloc.remainingRbgSet ≠ [] →
        ∀ ue ∈ s.ueVector, (s.ueOf ue).admitted st = true → S.Settled st beamSym s n ue

/-- No reaping round of the call that reuses the iterator takes the turn of an admitted UE, other
than its victim, that waits. -/
def TurnsKept (S : Scheduler) (now : ℚ) (i : SlotStart) : Prop :=
  ∀ st beamSym s, S.LoopEntry now i st beamSym s → 0 < beamSym →
    ∀ n victim, S.ReusesIterator (S.stateAt st beamSym s n) victim →
      ∀ ue ∈ s.ueVector, ue ≠ victim → (s.ueOf ue).admitted st = true →
        S.Settled st beamSym s n ue ∨
          Scheduler.HasTurn s { S.stateAt st beamSym s n with
            ueVector := (S.sortByTbSize (S.stateAt st beamSym s n)).dropLast } ue

namespace Scheduler

variable {S : Scheduler} {now : ℚ} {i : SlotStart} {st : DppaStatics} {beamSym : ℕ}

/-! ### The UEs the iterator passes over -/

theorem skips_of_lt_skipCount {ues : UePtr → UeInfo} {r : ℕ} : ∀ {l : List UePtrAndBufferReq}
    {n : ℕ}, n < S.skipCount ues r l → ∃ ue, l[n]? = some ue ∧ S.skips (ues ue.1) ue.2 r = true
  | [], n, h => absurd h (Nat.not_lt_zero n)
  | (p, buf) :: l, n, h => by
      unfold skipCount at h
      split at h
      · next hskip =>
          cases n with
          | zero => exact ⟨(p, buf), rfl, hskip⟩
          | succ n => exact skips_of_lt_skipCount (l := l) (Nat.lt_of_succ_lt_succ h)
      · exact absurd h (Nat.not_lt_zero n)

theorem not_skips_of_skipCount {ues : UePtr → UeInfo} {r : ℕ} {ue : UePtrAndBufferReq} :
    ∀ {l : List UePtrAndBufferReq}, l[S.skipCount ues r l]? = some ue →
      S.skips (ues ue.1) ue.2 r = false
  | [], h => by cases h
  | (p, buf) :: l, h => by
      unfold skipCount at h
      split at h
      · exact not_skips_of_skipCount (l := l) h
      · next hskip =>
          cases h
          exact Bool.eq_false_iff.mpr hskip

theorem skips_eq (hfh : S.fhControl = none) (u : UeInfo) (buf r : ℕ) :
    S.skips u buf r = satisfied u buf := by
  simp [skips, hfh]

theorem not_satisfied_of_served {t : BeamState} {ue : UePtrAndBufferReq}
    (h : t.ueVector[S.nextIt beamSym t]? = some ue) : satisfied (t.ueOf ue) ue.2 = false := by
  unfold nextIt at h
  rw [← List.getElem?_drop] at h
  have hskip := not_skips_of_skipCount h
  unfold skips at hskip
  exact (Bool.or_eq_false_iff.mp hskip).1

theorem satisfied_of_passed (hfh : S.fhControl = none) {t : BeamState} {n : ℕ}
    {ue : UePtrAndBufferReq} (hge : t.schedInfoIt ≤ n) (hlt : n < S.nextIt beamSym t)
    (hue : t.ueVector[n]? = some ue) : satisfied (t.ueOf ue) ue.2 = true := by
  have hcount : n - t.schedInfoIt <
      S.skipCount t.alloc.ues beamSym (t.ueVector.drop t.schedInfoIt) := by
    unfold nextIt at hlt
    omega
  obtain ⟨u, hu, hskip⟩ := skips_of_lt_skipCount hcount
  rw [List.getElem?_drop, Nat.add_sub_cancel' hge, hue] at hu
  cases hu
  rw [skips_eq hfh] at hskip
  exact hskip

/-! ### Settled UEs stay settled -/

theorem stateAt_succ (s : BeamState) (n : ℕ) :
    S.stateAt st beamSym s (n + 1) = S.step st beamSym (S.stateAt st beamSym s n) :=
  Function.iterate_succ_apply' _ _ _

theorem stateAt_inv {s : BeamState} (hs : BeamInv S st beamSym s) (n : ℕ) :
    BeamInv S st beamSym (S.stateAt st beamSym s n) ∧ Frame s (S.stateAt st beamSym s n) :=
  reaches_inv ⟨n, rfl⟩ hs

theorem BeamInv.eq_of_pointer {s : BeamState} (hs : BeamInv S st beamSym s)
    {ue ue' : UePtrAndBufferReq} (h : ue ∈ s.ueVector) (h' : ue' ∈ s.ueVector)
    (he : ue.1 = ue'.1) : ue = ue' := by
  obtain ⟨_, _, hl⟩ := hs.ledger
  exact List.inj_on_of_nodup_map hl.nodup h h' he

/-- **Step lemma.** A settled UE stays settled. -/
theorem Settled.step {s : BeamState} (hs : BeamInv S st beamSym s) {n : ℕ}
    {ue : UePtrAndBufferReq} (hue : ue ∈ s.ueVector) (h : S.Settled st beamSym s n ue) :
    S.Settled st beamSym s (n + 1) ue := by
  obtain ⟨ht, hf⟩ := stateAt_inv hs n
  cases h with
  | rejected m hm h => exact .rejected m (Nat.lt_succ_of_lt hm) h
  | reaped m hm h => exact .reaped m (Nat.lt_succ_of_lt hm) h
  | satisfied h =>
      have hkeep : (S.step st beamSym (S.stateAt st beamSym s n)).alloc.ues ue.1 =
          (S.stateAt st beamSym s n).alloc.ues ue.1 → S.Settled st beamSym s (n + 1) ue := by
        intro he
        refine .satisfied ?_
        rw [stateAt_succ]
        unfold BeamState.ueOf at h ⊢
        rw [he]
        exact h
      obtain hsame | ⟨u, _, _, rbg, tb, _, hu, _, _, hues⟩ | ⟨u, hpc, hu, hues⟩ := step_ues ht
      · exact hkeep (by rw [hsame])
      · by_cases he : ue.1 = u.1
        · have hun := not_satisfied_of_served hu
          rw [← hs.eq_of_pointer hue (hf.mem u (List.mem_of_getElem? hu)) he, h] at hun
          cases hun
        · exact hkeep (by rw [hues, Function.update_of_ne he])
      · by_cases he : ue.1 = u.1
        · rw [← hs.eq_of_pointer hue (hf.mem u (reapVictim_mem hu)) he] at hu
          exact .reaped n (Nat.lt_succ_self n) ⟨hpc, hu⟩
        · exact hkeep (by rw [hues, Function.update_of_ne he])

theorem Rejects.at_iterator {t : BeamState} {ue : UePtrAndBufferReq}
    (h : S.Rejects beamSym t ue) : t.ueVector[S.nextIt beamSym t]? = some ue := by
  obtain ⟨_, _, _, hue, _⟩ := h
  exact hue

theorem BeamInv.at_allocTest {t : BeamState} (h : BeamInv S st beamSym t) (hs : t.pc = .allocTest) :
    t.reapingResources = true := by
  have hpc := h.pc
  simpa only [PcInv, hs] using hpc

/-- When a round moves the iterator behind the UE it comes to, the attempt for this UE failed. -/
theorem rejects_of_advanced {t t' : BeamState} {prevRemaining : ℕ} {lyapunov : Bool}
    (h : BeamInv S st beamSym t) (hs : t.pc = .serve prevRemaining lyapunov)
    (he : S.serve st beamSym prevRemaining lyapunov t = .ok t')
    (hit : t'.schedInfoIt = S.nextIt beamSym t + 1) {ue : UePtrAndBufferReq}
    (hue : t.ueVector[S.nextIt beamSym t]? = some ue) : S.Rejects beamSym t ue := by
  obtain ⟨_, _, _, ue₀, hue₀, _⟩ := h.at_serve hs
  have hle := (lt_of_getElem?_some hue₀).le
  cases lyapunov with
  | false =>
      rw [serve_leave hle (Or.inr rfl)] at he
      cases he
      exact absurd hit (Nat.lt_succ_self _).ne
  | true =>
      cases hatt : S.attemptAllocationOfCurrentResourceToUe ue.1 beamSym t.alloc with
      | error f =>
          rw [serve_attempt hle hue, hatt] at he
          cases he
      | ok r =>
          obtain ⟨granted, b⟩ := r
          cases granted with
          | false => exact ⟨prevRemaining, b, hs, hue, hatt⟩
          | true =>
              rw [(serve_granted h.ledger hle hue hatt st prevRemaining).2] at he
              cases he
              exact absurd hit (Nat.lt_succ_self _).ne

/-! ### The phases of a loop -/

/-- The loop gives RBGs. -/
def Serving (t : BeamState) : Prop :=
  match t.pc with
  | .reapTest => t.reapingResources = true
  | .allocTest => True
  | .serve _ _ => True
  | .progress prevRemaining => t.alloc.remainingRbgSet.length + 1 = prevRemaining
  | .reap => False
  | .finished => False
  | .fault _ => False

/-- No RBG is left, and the loop is reaping or over. -/
def Exhausted (t : BeamState) : Prop :=
  t.alloc.remainingRbgSet = [] ∧
    match t.pc with
    | .reapTest => True
    | .allocTest => True
    | .serve _ _ => False
    | .progress _ => False
    | .reap => t.reapingResources = true
    | .finished => True
    | .fault _ => False

/-- The loop ended in a fault, or is about to read the iterator outside the vector. -/
def Stuck (t : BeamState) : Prop :=
  match t.pc with
  | .reapTest => t.reapingResources = true ∧ t.alloc.remainingRbgSet ≠ [] ∧
      t.ueVector.length ≤ t.schedInfoIt
  | .allocTest => t.alloc.remainingRbgSet ≠ [] ∧ t.ueVector.length ≤ t.schedInfoIt
  | .serve _ _ => False
  | .progress _ => False
  | .reap => False
  | .finished => False
  | .fault _ => True

/-- Every admitted UE is settled or has its turn. -/
def Turns (S : Scheduler) (st : DppaStatics) (beamSym : ℕ) (s : BeamState) (n : ℕ)
    (t : BeamState) : Prop :=
  ∀ ue ∈ s.ueVector, (s.ueOf ue).admitted st = true →
    S.Settled st beamSym s n ue ∨ HasTurn s t ue

/-- The UEs with RBGs stand at or before the iterator, in the order of the weights. -/
def HeldBefore (s t : BeamState) : Prop :=
  ∀ m ue, s.ueVector[m]? = some ue → (t.ueOf ue).dlRBG ≠ [] → m ≤ t.schedInfoIt

/-- UEs with equal transport blocks stand in the order of the weights. -/
def TiesKept (s t : BeamState) : Prop :=
  ∀ a b, [a, b].Sublist s.ueVector → a ∈ t.ueVector → b ∈ t.ueVector →
    (t.ueOf a).dlTbSize = (t.ueOf b).dlTbSize → [a, b].Sublist t.ueVector

/-- What a loop is doing after `n` steps.  In a `fresh` one no reaping round has given back RBGs
for a UE that waits. -/
inductive Phase (S : Scheduler) (st : DppaStatics) (beamSym : ℕ) (fresh : Prop) (s : BeamState)
    (n : ℕ) (t : BeamState) : Prop
  | serving (round : Serving t) (turns : Turns S st beamSym s n t)
      (base : fresh → t.ueVector = s.ueVector ∧ HeldBefore s t)
  /-- All RBGs are given. -/
  | exhausted (h : Exhausted t) (held : fresh → HeldBefore s t)
      (ties : fresh → S.stdSort.StableTo s.ueVector.length → TiesKept s t)
  /-- Every admitted UE is settled. -/
  | done (h : ∀ ue ∈ s.ueVector, (s.ueOf ue).admitted st = true → S.Settled st beamSym s n ue)
  | stuck (h : Stuck t)

/-- What the round at `t` does not do: it reuses the iterator and takes a turn, or, in a fresh
loop, leaves an admitted UE waiting at all. -/
def Harmless (S : Scheduler) (st : DppaStatics) (beamSym : ℕ) (fresh : Prop) (s : BeamState)
    (n : ℕ) (t : BeamState) : Prop :=
  ∀ victim, S.ReusesIterator t victim → ∀ ue ∈ s.ueVector, ue ≠ victim →
    (s.ueOf ue).admitted st = true → S.Settled st beamSym s n ue ∨
      ¬ fresh ∧ HasTurn s { t with ueVector := (S.sortByTbSize t).dropLast } ue

theorem HeldBefore.of_eq {s t t' : BeamState} (h : HeldBefore s t)
    (hu : t'.alloc.ues = t.alloc.ues) (hit : t.schedInfoIt ≤ t'.schedInfoIt) :
    HeldBefore s t' := by
  intro m ue hue hne
  unfold BeamState.ueOf at hne
  rw [hu] at hne
  exact (h m ue hue hne).trans hit

theorem HeldBefore.granted {s t : BeamState} (hs : BeamInv S st beamSym s)
    (vec : t.ueVector = s.ueVector) (held : HeldBefore s t) {it rbg tb : ℕ} {b : Alloc} {pc : Pc}
    {ue : UePtrAndBufferReq} (hit : t.schedInfoIt ≤ it) (hue : t.ueVector[it]? = some ue)
    (hg : Alloc.Granted S ue.1 beamSym rbg tb t.alloc b) :
    HeldBefore s { t with schedInfoIt := it, alloc := b, pc := pc } := by
  intro m u hu hne
  show m ≤ it
  by_cases he : u.1 = ue.1
  · have hmem : ue ∈ s.ueVector := vec ▸ List.mem_of_getElem? hue
    rw [hs.eq_of_pointer (List.mem_of_getElem? hu) hmem he] at hu
    obtain ⟨_, _, hl⟩ := hs.ledger
    have hn : s.ueVector.Nodup := List.Nodup.of_map _ hl.nodup
    rw [vec] at hue
    exact ((List.getElem?_inj (lt_of_getElem?_some hu) hn).mp (hu.trans hue.symm)).le
  · have hsame : (b.ues u.1).dlRBG = (t.alloc.ues u.1).dlRBG := by
      rw [hg.ues, Function.update_of_ne he]
    have hne' : (t.ueOf u).dlRBG ≠ [] := fun hnil => hne (hsame.trans hnil)
    exact (held m u hu hne').trans hit

theorem Turns.of_eq {s t t' : BeamState} {n : ℕ} (hs : BeamInv S st beamSym s)
    (h : Turns S st beamSym s n t) (hv : t'.ueVector = t.ueVector)
    (hit : t'.schedInfoIt = t.schedInfoIt) : Turns S st beamSym s (n + 1) t' := by
  intro ue hue hadm
  refine (h ue hue hadm).imp (Settled.step hs hue) fun hturn => ?_
  unfold HasTurn
  rw [hv, hit]
  exact hturn

theorem HasTurn.advance {s t : BeamState} {ue : UePtrAndBufferReq} {m it : ℕ}
    (hm : t.ueVector[m]? = some ue) (hit : t.schedInfoIt ≤ it) (hle : it ≤ m)
    (hlt : ∀ j other, t.schedInfoIt ≤ j → j < m → t.ueVector[j]? = some other →
      Dbl.lt (s.ueOf ue).k (s.ueOf other).k = false) {a : Alloc} {pc : Pc} :
    HasTurn s { t with schedInfoIt := it, alloc := a, pc := pc } ue :=
  ⟨m, hle, hm, fun j other hj hjm hother => hlt j other (hit.trans hj) hjm hother⟩

/-- A round of the serving loop. -/
theorem phase_serve {fresh : Prop} {s : BeamState} (hs : BeamInv S st beamSym s)
    (hsort : SortedByK s) (hfh : S.fhControl = none) {n : ℕ} {prevRemaining : ℕ} {lyapunov : Bool}
    (hpc : (S.stateAt st beamSym s n).pc = .serve prevRemaining lyapunov)
    (turns : Turns S st beamSym s n (S.stateAt st beamSym s n))
    (base : fresh → (S.stateAt st beamSym s n).ueVector = s.ueVector ∧
      HeldBefore s (S.stateAt st beamSym s n)) :
    Phase S st beamSym fresh s (n + 1) (S.stateAt st beamSym s (n + 1)) := by
  obtain ⟨ht, hf⟩ := stateAt_inv hs n
  rw [stateAt_succ]
  generalize hteq : S.stateAt st beamSym s n = t at hpc turns base ht hf ⊢
  have hge : t.schedInfoIt ≤ S.nextIt beamSym t := le_nextIt t
  have hpass : ∀ ue ∈ s.ueVector, (s.ueOf ue).admitted st = true →
      S.Settled st beamSym s (n + 1) ue ∨ ∃ m, S.nextIt beamSym t ≤ m ∧
        t.ueVector[m]? = some ue ∧ ∀ j other, t.schedInfoIt ≤ j → j < m →
          t.ueVector[j]? = some other → Dbl.lt (s.ueOf ue).k (s.ueOf other).k = false := by
    intro ue hue hadm
    obtain hset | ⟨m, hm, hat, hlt⟩ := turns ue hue hadm
    · exact Or.inl (Settled.step hs hue hset)
    · by_cases hpassed : m < S.nextIt beamSym t
      · refine Or.inl (Settled.step hs hue (.satisfied ?_))
        rw [hteq]
        exact satisfied_of_passed hfh hm hpassed hat
      · exact Or.inr ⟨m, Nat.le_of_not_lt hpassed, hat, hlt⟩
  have hreject : ∀ t', S.serve st beamSym prevRemaining lyapunov t = .ok t' →
      t'.schedInfoIt = S.nextIt beamSym t + 1 → ∀ ue,
        t.ueVector[S.nextIt beamSym t]? = some ue → S.Settled st beamSym s (n + 1) ue := by
    intro t' he hit ue hue
    refine .rejected n (Nat.lt_succ_self n) ?_
    rw [hteq]
    exact rejects_of_advanced ht hpc he hit hue
  obtain ⟨_, hprev, hpos, ue₀, hue₀, hflag⟩ := ht.at_serve hpc
  have hserve : Served S st beamSym prevRemaining lyapunov t _ :=
    serve_cases ht.ledger (lt_of_getElem?_some hue₀).le
  rw [step_serve hpc]
  generalize hr : S.serve st beamSym prevRemaining lyapunov t = r at hserve hreject ⊢
  cases hserve with
  | leave it hit h =>
      refine .done fun ue hue hadm => ?_
      obtain hset | ⟨m, hm, hat, hlt⟩ := hpass ue hue hadm
      · exact hset
      · exfalso
        have hml := lt_of_getElem?_some hat
        obtain hend | hlyap := h
        · omega
        · have hno : (s.ueOf ue₀).admitted st = false :=
            ((hf.same ue₀.1).admitted st).symm.trans (hflag.symm.trans hlyap)
          have hmem := hf.mem ue₀ (List.mem_of_getElem? hue₀)
          obtain heq | hlt' := Nat.eq_or_lt_of_le (hge.trans hm)
          · rw [← heq, hue₀] at hat
            cases hat
            rw [hno] at hadm
            cases hadm
          · have hyes := hsort.admitted_of_not_lt hue hmem (hlt _ ue₀ le_rfl hlt' hue₀) hadm
            rw [hno] at hyes
            cases hyes
  | throws f hf => exact .stuck trivial
  | granted it ue b rbg tb hit hue hlyap hatt hg =>
      refine .serving ?_ (fun u hu hadm => ?_) fun hfresh => ?_
      · show b.remainingRbgSet.length + 1 = prevRemaining
        rw [hg.remaining, List.length_erase_of_mem hg.mem]
        omega
      · refine (hpass u hu hadm).imp id fun ⟨m, hm, hat, hlt⟩ => ?_
        rw [hit]
        exact HasTurn.advance hat hge hm hlt
      · obtain ⟨vec, held⟩ := base hfresh
        refine ⟨vec, held.granted hs vec ?_ hue hg⟩
        rw [hit]
        exact hge
  | lastFailed it b hit hlast hb =>
      refine .done fun ue hue hadm => ?_
      obtain hset | ⟨m, hm, hat, _⟩ := hpass ue hue hadm
      · exact hset
      · have hml := lt_of_getElem?_some hat
        have heq : S.nextIt beamSym t = m := by omega
        exact hreject _ rfl (by rw [hit]) ue (heq ▸ hat)
  | failed it ue b hit hue hb =>
      have hle : t.schedInfoIt ≤ it + 1 := by omega
      refine .serving trivial (fun u hu hadm => ?_) fun hfresh => ?_
      · obtain hset | ⟨m, hm, hat, hlt⟩ := hpass u hu hadm
        · exact Or.inl hset
        · obtain heq | hlt' := Nat.eq_or_lt_of_le hm
          · exact Or.inl (hreject _ rfl (by rw [hit]) u (heq ▸ hat))
          · exact Or.inr (HasTurn.advance hat hle (by omega) hlt)
      · obtain ⟨vec, held⟩ := base hfresh
        exact ⟨vec, held.of_eq hb.ues hle⟩

theorem pair_sublist_of_concat {α : Type} {a b v : α} {l : List α} (h : [a, b].Sublist (l ++ [v]))
    (hb : b ≠ v) : [a, b].Sublist l := by
  have hrev := List.reverse_sublist.mpr h
  rw [List.reverse_append] at hrev
  cases hrev with
  | cons _ hrev => exact List.reverse_sublist.mp hrev
  | cons_cons => exact absurd rfl hb

theorem TiesKept.reap {s t : BeamState} (hf : Frame s t)
    (hstable : S.stdSort.StableTo s.ueVector.length) (h : TiesKept s t) :
    TiesKept s { t with ueVector := S.sortByTbSize t } := by
  intro a b hab ha hb heq
  have hperm := sortByTbSize_perm (S := S) t
  refine hstable _ _ hf.length (tbSize_strictWeak t _) a b ?_ ⟨?_, ?_⟩
  · exact h a b hab (hperm.mem_iff.mp ha) (hperm.mem_iff.mp hb) heq
  · have heq' : (t.ueOf a).dlTbSize = (t.ueOf b).dlTbSize := heq
    simp [heq']
  · have heq' : (t.ueOf a).dlTbSize = (t.ueOf b).dlTbSize := heq
    simp [heq']

/-- A reaping round after all RBGs are given. -/
theorem phase_reap {fresh : Prop} {s : BeamState} (hs : BeamInv S st beamSym s) {n : ℕ}
    (hpc : (S.stateAt st beamSym s n).pc = .reap)
    (hgo : (S.stateAt st beamSym s n).reapingResources = true)
    (hempty : (S.stateAt st beamSym s n).alloc.remainingRbgSet = [])
    (held : fresh → HeldBefore s (S.stateAt st beamSym s n))
    (ties : fresh → S.stdSort.StableTo s.ueVector.length → TiesKept s (S.stateAt st beamSym s n))
    (hk : Harmless S st beamSym fresh s n (S.stateAt st beamSym s n)) :
    Phase S st beamSym fresh s (n + 1) (S.stateAt st beamSym s (n + 1)) := by
  obtain ⟨ht, hf⟩ := stateAt_inv hs n
  rw [stateAt_succ]
  generalize hteq : S.stateAt st beamSym s n = t at hpc hgo hempty held ties hk ht hf ⊢
  have hperm := sortByTbSize_perm (S := S) t
  obtain ⟨r, hreap, hstep⟩ := ht.step_reap_cases hpc
  rw [hstep]
  cases hreap with
  | done h =>
      refine .exhausted ⟨hempty, trivial⟩ (fun hfresh => (held hfresh).of_eq rfl le_rfl) ?_
      exact fun hfresh hstable => (ties hfresh hstable).reap hf hstable
  | popped victim c hv hlast hc hl =>
      obtain ⟨_, _, hledger⟩ := ht.ledger
      have hnodup : ((S.sortByTbSize t).map Prod.fst).Nodup := (hledger.perm hperm).nodup
      have hother : ∀ ue ∈ (S.sortByTbSize t).dropLast, ue ≠ victim ∧
          c.ues ue.1 = t.alloc.ues ue.1 := by
        intro ue hue
        rw [hlast, List.map_append] at hnodup
        have hne : ue.1 ≠ victim.1 := fun he =>
          (List.disjoint_of_nodup_append hnodup) (List.mem_map_of_mem hue)
            (by rw [he]; exact List.mem_singleton.mpr rfl)
        exact ⟨fun he => hne (congrArg Prod.fst he), by rw [hc.ues, Function.update_of_ne hne]⟩
      by_cases hrem : c.remainingRbgSet = []
      · refine .exhausted ⟨hrem, trivial⟩ (fun hfresh m ue hue hne => ?_) ?_
        · refine held hfresh m ue hue fun hnil => hne ?_
          show (c.ues ue.1).dlRBG = []
          rw [hc.ues]
          by_cases he : ue.1 = victim.1
          · rw [he, Function.update_self]
            rfl
          · rw [Function.update_of_ne he]
            exact hnil
        · intro hfresh hstable a b hab ha hb heq
          have hsorted := (ties hfresh hstable).reap hf hstable a b hab
            (List.mem_of_mem_dropLast ha) (List.mem_of_mem_dropLast hb) (by
              have heq' : (c.ues a.1).dlTbSize = (c.ues b.1).dlTbSize := heq
              rw [(hother a ha).2, (hother b hb).2] at heq'
              exact heq')
          have hsplit : [a, b].Sublist ((S.sortByTbSize t).dropLast ++ [victim]) := hlast ▸ hsorted
          exact pair_sublist_of_concat hsplit (hother b hb).1
      · have hne : (t.ueOf victim).dlRBG ≠ [] := fun hnil => hrem (hc.remaining.mpr ⟨hempty, hnil⟩)
        by_cases hin : t.schedInfoIt + 1 < t.ueVector.length
        · have huse : S.ReusesIterator t victim := ⟨⟨hpc, hv⟩, hgo, hempty, hne, hin⟩
          have hsettled : ∀ ue ∈ s.ueVector, (s.ueOf ue).admitted st = true →
              S.Settled st beamSym s (n + 1) ue ∨
                ¬ fresh ∧ HasTurn s { t with ueVector := (S.sortByTbSize t).dropLast } ue := by
            intro ue hue hadm
            by_cases he : ue = victim
            · refine Or.inl (.reaped n (Nat.lt_succ_self n) ?_)
              rw [hteq, he]
              exact ⟨hpc, hv⟩
            · exact (hk victim huse ue hue he hadm).imp (Settled.step hs hue) id
          by_cases hfresh : fresh
          · exact .done fun ue hue hadm =>
              (hsettled ue hue hadm).resolve_right fun h => h.1 hfresh
          · exact .serving hgo (fun ue hue hadm => (hsettled ue hue hadm).imp id And.right)
              fun h => absurd h hfresh
        · refine .stuck ⟨hgo, hrem, ?_⟩
          show (S.sortByTbSize t).dropLast.length ≤ t.schedInfoIt
          rw [List.length_dropLast, hperm.length_eq]
          omega

/-- Between two reaping rounds a loop without RBGs does nothing. -/
theorem Exhausted.step {t : BeamState} (ht : BeamInv S st beamSym t) (h : Exhausted t)
    (hreap : t.pc ≠ .reap) : Exhausted (S.step st beamSym t) ∧
      (S.step st beamSym t).ueVector = t.ueVector ∧
      (S.step st beamSym t).alloc.ues = t.alloc.ues ∧
      (S.step st beamSym t).schedInfoIt = t.schedInfoIt := by
  obtain ⟨hempty, h⟩ := h
  cases hpc : t.pc with
  | reapTest =>
      rw [step_reapTest hpc]
      refine ⟨⟨hempty, ?_⟩, rfl, rfl, rfl⟩
      cases t.reapingResources with
      | true => trivial
      | false => trivial
  | allocTest =>
      have hgo := ht.at_allocTest hpc
      rw [step_allocTest hpc]
      obtain ⟨_, e⟩ | ⟨hne, _⟩ | ⟨hne, _⟩ := allocTest_cases st t
      · rw [e]
        exact ⟨⟨hempty, hgo⟩, rfl, rfl, rfl⟩
      · exact absurd hempty hne
      · exact absurd hempty hne
  | serve prevRemaining lyapunov => simp [hpc] at h
  | progress prevRemaining => simp [hpc] at h
  | reap => exact absurd hpc hreap
  | finished =>
      rw [step_finished hpc]
      refine ⟨⟨hempty, ?_⟩, rfl, rfl, rfl⟩
      rw [hpc]
      trivial
  | fault f => simp [hpc] at h

/-- A loop whose iterator is behind the vector ends in a fault. -/
theorem Stuck.step {t : BeamState} (h : Stuck t) : Stuck (S.step st beamSym t) := by
  cases hpc : t.pc with
  | reapTest =>
      simp only [Stuck, hpc] at h
      rw [step_reapTest hpc, h.1]
      exact h.2
  | allocTest =>
      simp only [Stuck, hpc] at h
      rw [step_allocTest hpc]
      obtain ⟨hnil, _⟩ | ⟨_, _, e⟩ | ⟨_, ue, hue, _⟩ := allocTest_cases st t
      · exact absurd hnil h.1
      · rw [e]
        trivial
      · exact absurd (lt_of_getElem?_some hue) (Nat.not_lt.mpr h.2)
  | serve prevRemaining lyapunov => simp [Stuck, hpc] at h
  | progress prevRemaining => simp [Stuck, hpc] at h
  | reap => simp [Stuck, hpc] at h
  | finished => simp [Stuck, hpc] at h
  | fault f =>
      rw [step_fault hpc]
      exact h

/-- **Step lemma.** A step leads from phase to phase, unless it is a harmful reaping round. -/
theorem Phase.step {fresh : Prop} {s : BeamState} (hs : BeamInv S st beamSym s)
    (hsort : SortedByK s) (hfh : S.fhControl = none) {n : ℕ}
    (hk : Harmless S st beamSym fresh s n (S.stateAt st beamSym s n))
    (h : Phase S st beamSym fresh s n (S.stateAt st beamSym s n)) :
    Phase S st beamSym fresh s (n + 1) (S.stateAt st beamSym s (n + 1)) := by
  obtain ⟨ht, hf⟩ := stateAt_inv hs n
  cases h with
  | done h => exact .done fun ue hue hadm => Settled.step hs hue (h ue hue hadm)
  | serving round turns base =>
      cases hpc : (S.stateAt st beamSym s n).pc with
      | reapTest =>
          simp only [Serving, hpc] at round
          rw [stateAt_succ, step_reapTest hpc, round]
          exact .serving trivial (turns.of_eq hs rfl rfl) fun hfresh =>
            ⟨(base hfresh).1, (base hfresh).2.of_eq rfl le_rfl⟩
      | allocTest =>
          have hgo := ht.at_allocTest hpc
          rw [stateAt_succ, step_allocTest hpc]
          obtain ⟨hnil, e⟩ | ⟨_, hnone, e⟩ | ⟨_, ue, _, e⟩ :=
            allocTest_cases st (S.stateAt st beamSym s n)
          · rw [e]
            refine .exhausted ⟨hnil, hgo⟩ (fun hfresh => (base hfresh).2.of_eq rfl le_rfl) ?_
            intro hfresh _ a b hab _ _ _
            exact (base hfresh).1.symm ▸ hab
          · rw [e]
            exact .stuck trivial
          · rw [e]
            exact .serving trivial (turns.of_eq hs rfl rfl) fun hfresh =>
              ⟨(base hfresh).1, (base hfresh).2.of_eq rfl le_rfl⟩
      | serve prevRemaining lyapunov => exact phase_serve hs hsort hfh hpc turns base
      | progress prevRemaining =>
          simp only [Serving, hpc] at round
          rw [stateAt_succ, step_progress hpc, if_neg (by omega)]
          exact .serving trivial (turns.of_eq hs rfl rfl) fun hfresh =>
            ⟨(base hfresh).1, (base hfresh).2.of_eq rfl le_rfl⟩
      | reap => simp [Serving, hpc] at round
      | finished => simp [Serving, hpc] at round
      | fault f => simp [Serving, hpc] at round
  | exhausted h held ties =>
      by_cases hpc : (S.stateAt st beamSym s n).pc = .reap
      · obtain ⟨hempty, hgo⟩ := h
        simp only [hpc] at hgo
        exact phase_reap hs hpc hgo hempty held ties hk
      · obtain ⟨hnext, hvec, hues, hit⟩ := h.step ht hpc
        rw [stateAt_succ]
        refine .exhausted hnext (fun hfresh => (held hfresh).of_eq hues hit.ge) ?_
        intro hfresh hstable
        have hties := ties hfresh hstable
        unfold TiesKept BeamState.ueOf at hties ⊢
        rw [hvec, hues]
        exact hties
  | stuck h =>
      rw [stateAt_succ]
      exact .stuck h.step

theorem loopEntry_nil {s : BeamState} (h : S.LoopEntry now i st beamSym s)
    {ue : UePtrAndBufferReq} (hue : ue ∈ s.ueVector) : (s.ueOf ue).dlRBG = [] := by
  obtain ⟨pre, el, post, acc, e, hi, hpre, rfl, he, rfl, rfl⟩ := h
  obtain ⟨_, hc⟩ := loopEntry_clean hi hpre
  obtain ⟨_, h1, h2⟩ := beamEntry_ok he
  have hclean := (entered_of_foldlM h1).clean ue.1 (hc ue ((beamEntry_mem he).mp hue))
  rw [h2]
  exact hclean.1

/-- **Run lemma.** A loop whose reaping rounds do no harm goes from phase to phase. -/
theorem phase_run {fresh : Prop} {s : BeamState} (h : S.LoopEntry now i st beamSym s)
    (hfh : S.fhControl = none)
    (hk : ∀ n, Phase S st beamSym fresh s n (S.stateAt st beamSym s n) →
      Harmless S st beamSym fresh s n (S.stateAt st beamSym s n)) (n : ℕ) :
    Phase S st beamSym fresh s n (S.stateAt st beamSym s n) := by
  obtain ⟨hs, hpc, hit, _⟩ := loopEntry_inv h
  have hsort := loopEntry_sorted h
  induction n with
  | zero =>
      show Phase S st beamSym fresh s 0 s
      refine .serving ?_ (fun ue hue _ => Or.inr ?_) fun _ => ⟨rfl, fun m ue hue hne => ?_⟩
      · simp only [Serving, hpc]
        exact (loopEntry_resources h).2
      · obtain ⟨m, hm, rfl⟩ := List.mem_iff_getElem.mp hue
        refine ⟨m, by omega, List.getElem?_eq_getElem hm, fun j other _ hj hother => ?_⟩
        obtain ⟨hjl, rfl⟩ := List.getElem?_eq_some_iff.mp hother
        exact List.pairwise_iff_getElem.mp hsort.sorted j m hjl hm hj
      · exact absurd (loopEntry_nil h (List.mem_of_getElem? hue)) hne
  | succ n ih => exact Phase.step hs hsort hfh (hk n ih) ih

/-! ### Rounds that take no turn -/

theorem reapVictim_min {t : BeamState} {victim ue : UePtrAndBufferReq}
    (hv : S.reapVictim t = some victim) (hue : ue ∈ t.ueVector) :
    (t.ueOf victim).dlTbSize ≤ (t.ueOf ue).dlTbSize := by
  have hsorted := sortByTbSize_sorted (S := S) t
  have hmem := (sortByTbSize_perm (S := S) t).mem_iff.mpr hue
  rw [reapVictim_last hv, List.pairwise_append] at hsorted
  rw [reapVictim_last hv] at hmem
  obtain hmem | hmem := List.mem_append.mp hmem
  · exact hsorted.2.2 ue hmem victim (List.mem_singleton.mpr rfl)
  · rw [List.mem_singleton.mp hmem]

theorem dlTbSize_pos {u : UeInfo}
    (hpos : ∀ mcs rank n, 0 < n → 0 < S.dlAmc.calculateTbSize mcs rank (n * S.numRbPerRbg))
    (hm : S.MetricOk u) (hne : u.dlRBG ≠ []) : 0 < u.dlTbSize := by
  obtain ⟨mcs, _, htb⟩ := hm.exists_mcs hne
  rw [htb]
  exact hpos mcs u.dlRank _ (List.length_pos_iff.mpr hne)

/-- When a round frees RBGs with the iterator inside the vector, a UE without RBGs is left.  It
stands behind the victim in the order of the weights, and the victim has no transport block. -/
theorem exists_without_rbgs {s t : BeamState} (ht : BeamInv S st beamSym t) (hf : Frame s t)
    (held : HeldBefore s t) {victim : UePtrAndBufferReq} (huse : S.ReusesIterator t victim) :
    ∃ ue ∈ t.ueVector, [victim, ue].Sublist s.ueVector ∧ (t.ueOf ue).dlTbSize = 0 ∧
      (t.ueOf victim).dlTbSize = 0 := by
  obtain ⟨_, _, hl⟩ := ht.ledger
  have hn : t.ueVector.Nodup := List.Nodup.of_map _ hl.nodup
  obtain ⟨ue, hue, hbehind⟩ : ∃ ue ∈ t.ueVector, ue ∉ s.ueVector.take (t.schedInfoIt + 1) := by
    by_contra hno
    push Not at hno
    have hlen := (List.subperm_of_subset hn hno).length_le
    have htake : (s.ueVector.take (t.schedInfoIt + 1)).length ≤ t.schedInfoIt + 1 :=
      List.length_take_le _ _
    have hin := huse.inside
    omega
  have hv := reapVictim_mem huse.reaps.2
  obtain ⟨m, hm⟩ := List.mem_iff_getElem?.mp (hf.mem ue hue)
  obtain ⟨j, hj⟩ := List.mem_iff_getElem?.mp (hf.mem victim hv)
  have hjle := held j victim hj huse.held
  have hmgt : t.schedInfoIt < m := by
    by_contra hle
    refine hbehind (List.mem_of_getElem? (i := m) ?_)
    rw [List.getElem?_take_of_lt (by omega)]
    exact hm
  have hnil : (t.ueOf ue).dlRBG = [] := by
    by_contra hne
    have := held m ue hm hne
    omega
  have hzero : (t.ueOf ue).dlTbSize = 0 := Ledger.dlTbSize_of_nil (hl.metric ue hue) hnil
  have hmin := reapVictim_min huse.reaps.2 hue
  refine ⟨ue, hue, ?_, hzero, by omega⟩
  obtain ⟨hml, rfl⟩ := List.getElem?_eq_some_iff.mp hm
  obtain ⟨hjl, rfl⟩ := List.getElem?_eq_some_iff.mp hj
  have hdrop : s.ueVector[m] ∈ s.ueVector.drop (j + 1) :=
    List.mem_of_getElem? (i := m - (j + 1)) (by
      rw [List.getElem?_drop, Nat.add_sub_cancel' (by omega), List.getElem?_eq_getElem hml])
  have hpair : [s.ueVector[j], s.ueVector[m]].Sublist (s.ueVector.drop j) := by
    rw [List.drop_eq_getElem_cons hjl]
    exact (List.singleton_sublist.mpr hdrop).cons_cons _
  exact hpair.trans (List.drop_sublist j _)

end Scheduler

/-- When no fresh loop of a call has a round that reuses the iterator after all RBGs were given,
no turn is taken. -/
theorem turnsKept_of_fresh {S : Scheduler} {now : ℚ} {i : SlotStart} (hfh : S.fhControl = none)
    (h : ∀ st beamSym s, S.LoopEntry now i st beamSym s → ∀ t, Scheduler.BeamInv S st beamSym t →
      Scheduler.Frame s t → Scheduler.HeldBefore s t →
        (S.stdSort.StableTo s.ueVector.length → Scheduler.TiesKept s t) →
          ∀ victim, ¬ S.ReusesIterator t victim) : TurnsKept S now i := by
  intro st beamSym s hentry _
  obtain ⟨hs, _⟩ := Scheduler.loopEntry_inv hentry
  have hk : ∀ n, Scheduler.Phase S st beamSym True s n (S.stateAt st beamSym s n) →
      Scheduler.Harmless S st beamSym True s n (S.stateAt st beamSym s n) := by
    intro n hphase victim huse ue hue _ hadm
    obtain ⟨ht, hf⟩ := Scheduler.stateAt_inv hs n
    cases hphase with
    | done h => exact Or.inl (h ue hue hadm)
    | serving round turns base => simp [Scheduler.Serving, huse.reaps.1] at round
    | exhausted _ held ties =>
        exact absurd huse (h st beamSym s hentry _ ht hf (held trivial) (ties trivial) victim)
    | stuck h => simp [Scheduler.Stuck, huse.reaps.1] at h
  intro n victim huse ue hue hne hadm
  have hharm := hk n (Scheduler.phase_run hentry hfh hk n) victim huse ue hue hne hadm
  exact hharm.imp id And.right

/-- **When every allocation has a transport block** the reaping rounds take no turn. -/
theorem turnsKept_of_tbSize_pos (S : Scheduler) (now : ℚ) (i : SlotStart)
    (hfh : S.fhControl = none)
    (hpos : ∀ mcs rank n, 0 < n → 0 < S.dlAmc.calculateTbSize mcs rank (n * S.numRbPerRbg)) :
    TurnsKept S now i := by
  refine turnsKept_of_fresh hfh fun st beamSym s _ t ht hf held _ victim huse => ?_
  obtain ⟨_, _, hl⟩ := ht.ledger
  obtain ⟨_, _, _, _, hzero⟩ := Scheduler.exists_without_rbgs ht hf held huse
  have hvpos := Scheduler.dlTbSize_pos hpos
    (hl.metric victim (Scheduler.reapVictim_mem huse.reaps.2)) huse.held
  have hvpos' : 0 < (t.ueOf victim).dlTbSize := hvpos
  omega

/-- **When the sort keeps ties** the reaping rounds take no turn. -/
theorem turnsKept_of_stable (S : Scheduler) (now : ℚ) (i : SlotStart) (hfh : S.fhControl = none)
    (hstable : ∀ st beamSym s, S.LoopEntry now i st beamSym s →
      S.stdSort.StableTo s.ueVector.length) : TurnsKept S now i := by
  refine turnsKept_of_fresh hfh fun st beamSym s hentry t ht hf held ties victim huse => ?_
  have hstable := hstable st beamSym s hentry
  obtain ⟨ue, hue, hpair, hzero, hvzero⟩ := Scheduler.exists_without_rbgs ht hf held huse
  have hperm := Scheduler.sortByTbSize_perm (S := S) t
  have hv := Scheduler.reapVictim_mem huse.reaps.2
  have hsorted := (ties hstable).reap hf hstable victim ue hpair (hperm.mem_iff.mpr hv)
    (hperm.mem_iff.mpr hue) (hvzero.trans hzero.symm)
  obtain ⟨_, _, hl⟩ := ht.ledger
  have hnodup : (S.sortByTbSize t).Nodup :=
    List.Nodup.of_map _ (hl.perm hperm).nodup
  have hlast := Scheduler.reapVictim_last huse.reaps.2
  have hsplit : [victim, ue].Sublist
      ((S.sortByTbSize t).dropLast ++ [victim]) := hlast ▸ hsorted
  rw [hlast] at hnodup
  have hne : ue ≠ victim := by
    rintro rfl
    exact absurd (hsplit.nodup hnodup) (by simp)
  have hin := (Scheduler.pair_sublist_of_concat hsplit hne).subset List.mem_cons_self
  exact (List.disjoint_of_nodup_append hnodup) hin (List.mem_singleton.mpr rfl)

theorem turnsKept_of_introsort (S : Scheduler) (now : ℚ) (i : SlotStart) (hfh : S.fhControl = none)
    (hsort : S.stdSort = .introsort) (hlen : ∀ el ∈ i.activeDl, el.2.length ≤ 16) :
    TurnsKept S now i := by
  refine turnsKept_of_stable S now i hfh fun st beamSym s hentry => ?_
  obtain ⟨pre, el, post, acc, e, hi, _, _, he, _, rfl⟩ := hentry
  obtain ⟨_, _, h2⟩ := Scheduler.beamEntry_ok he
  have hperm : e.2.ueVector.Perm el.2 := by
    rw [h2]
    exact S.stdSort.perm _ _
  have hel : el ∈ i.activeDl := by
    rw [hi]
    exact List.mem_append_right pre List.mem_cons_self
  rw [hsort, hperm.length_eq]
  exact StdSort.stableTo_introsort.mono (hlen el hel)

/-- **Priority and work conservation.** In every call without fronthaul control whose reaping
rounds take no turn, RBGs are given by priority and none is left over. -/
theorem strictPriority_of_turnsKept (S : Scheduler) (now : ℚ) (i : SlotStart)
    (hfh : S.fhControl = none) (hk : TurnsKept S now i) : StrictPriority S now i := by
  have hphase : ∀ st beamSym s, S.LoopEntry now i st beamSym s → 0 < beamSym →
      ∀ n, Scheduler.Phase S st beamSym False s n (S.stateAt st beamSym s n) := by
    refine fun st beamSym s h hb => Scheduler.phase_run h hfh fun n _ => ?_
    intro victim huse ue hue hne hadm
    exact (hk st beamSym s h hb n victim huse ue hue hne hadm).imp id fun h => ⟨id, h⟩
  refine ⟨fun st beamSym s h hb n served hserved hgrow ue hue hlt hadm => ?_,
    fun st beamSym s h hb n hpc hne ue hue hadm => ?_⟩
  · obtain ⟨hs, _⟩ := Scheduler.loopEntry_inv h
    obtain ⟨ht, hf⟩ := Scheduler.stateAt_inv hs n
    rw [Scheduler.stateAt_succ] at hgrow
    obtain ⟨u, hu, _, prevRemaining, b, hpc, hat, _⟩ := Scheduler.step_grows ht hgrow
    rw [hs.eq_of_pointer (hf.mem u (List.mem_of_getElem? hat)) hserved hu] at hat
    cases hphase st beamSym s h hb n with
    | done h => exact h ue hue hadm
    | serving round turns base =>
        obtain hset | ⟨m, hm, hmat, hturn⟩ := turns ue hue hadm
        · exact hset
        · obtain hbefore | heq | hbehind := Nat.lt_trichotomy m (S.nextIt beamSym _)
          · exact .satisfied (Scheduler.satisfied_of_passed hfh hm hbefore hmat)
          · rw [← heq, hmat] at hat
            cases hat
            rw [Dbl.lt_irrefl] at hlt
            cases hlt
          · rw [hturn _ served (Scheduler.le_nextIt _) hbehind hat] at hlt
            cases hlt
    | exhausted h held ties => simp [Scheduler.Exhausted, hpc] at h
    | stuck h => simp [Scheduler.Stuck, hpc] at h
  · cases hphase st beamSym s h hb n with
    | done h => exact h ue hue hadm
    | serving round turns base => simp [Scheduler.Serving, hpc] at round
    | exhausted h held ties => exact absurd h.1 hne
    | stuck h => simp [Scheduler.Stuck, hpc] at h

/-- Under the wideband scheduler every allocation has a transport block. -/
theorem strictPriority_wideband :
    StrictPriority (.wideband [true]) 0
      (.oneBeam (.fresh (setDppWeights 1 0 1) fun _ => 20000000) (fun _ => ⟨rfl, rfl, rfl⟩)
        (0, 50) [(1, 100)] (by decide)) := by
  refine strictPriority_of_turnsKept _ _ _ rfl
    (turnsKept_of_tbSize_pos _ _ _ rfl fun mcs rank n hn => ?_)
  show 0 < 5 * (n * 1)
  omega

/-- Twenty UEs with virtual queues.  The only sub-band of the first one has the MCS 10, that of the
others the MCS zero. -/
def World.lowSubBand : World where
  ues := fun p =>
    { rnti := p + 1, dlLCG := [[⟨4, 100, 0, 0, 1000⟩]], dlMcs := 10, g := 30000000 - 1000000 * p
      dlSbMcsInfo := if p = 0 then [⟨10, 10, 0, 0⟩] else [⟨1, 0, 0, 0⟩]
      rbgToSb := [0, 0], mcsCsiSource := .avgMcs }
  statics := setDppWeights 1 0 1

/-- A scheduler with sub-band reports, for which an RBG at the MCS zero has no transport block,
and with the sort of libstdc++. -/
def Scheduler.subBand : Scheduler :=
  { Scheduler.wideband [true, true] with
    dlAmc := ⟨fun mcs _ nprb => if mcs = 0 then 0 else 5 * nprb, fun _ => 0, fun _ => 0⟩
    mcsCsiSource := .avgMcs
    stdSort := .introsort }

/-- The call for the twenty UEs. -/
def SlotStart.twentyUes : SlotStart :=
  .oneBeam .lowSubBand (fun _ => ⟨rfl, rfl, rfl⟩) (0, 50)
    ((List.range 19).map fun p => (p + 1, 100)) (by decide)

/-- Twenty UEs and two RBGs.  The first UE is satisfied with one of them; the second one takes the
other, for a transport block of zero bytes.  The sort by transport block exchanges the equal UEs and
leaves the second one at the end, so that it is reaped; the iterator then stands at the UE with the
pointer 10, which gets the RBG while the one with the pointer 2 waits. -/
theorem not_strictPriority_twentyUes : ¬ StrictPriority .subBand 0 .twentyUes := by
  intro h
  have hentry : Scheduler.LoopEntry .subBand 0 .twentyUes _ _ _ := .first rfl rfl
  have hset := h.grants _ _ _ hentry (by decide +kernel) 11 (10, 100) (by decide +kernel)
    (by decide +kernel) (2, 100) (by decide +kernel) (by decide +kernel) (by decide +kernel)
  cases hset with
  | satisfied h => exact absurd h (by decide +kernel)
  | rejected m hm h =>
      have hat := h.at_iterator
      clear h
      revert m
      decide +kernel
  | reaped m hm h =>
      have hv := h.2
      clear h
      revert m
      decide +kernel

end Rbis
