import Rbis.Sched.CallFrame

/-! # The registry `m_allUEs`

`AssignDLRBG` appends an active UE to `m_allUEs` when the list is shorter than the number of
UEs reported to the interface since its last reset.  The test comes before the report of the
UE itself, so the first active UE of the first call is compared with zero and is not appended in
that call.  The registry is complete at the end of every call exactly if no call has an active UE
(`registryOk_iff`).

A run consists of calls of `AssignDLRBG`, resets of the interface, registrations and releases
of UEs, and whatever the rest of the stack does to the UEs. -/

namespace Rbis

open Cxx Fallible

/-- A cell with one scheduler; `seen` and `released` record the run. -/
structure Cell where
  world : World
  /-- The UEs of `m_ueMap`. -/
  registered : List UePtr := []
  /-- The UEs that were active in some call. -/
  seen : List UePtr := []
  released : List UePtr := []

inductive CellOp where
  | assign (now : ℚ) (symAvail : ℕ) (activeDl : ActiveUeMap)
  | reset
  | register (p : UePtr)
  /-- `DoCschedUeReleaseReq`, which erases the UE from `m_ueMap` only. -/
  | release (p : UePtr)
  | mac (ues : UePtr → UeInfo)

namespace Cell

/-- A call that does not return changes nothing. -/
def assign (S : Scheduler) (now : ℚ) (symAvail : ℕ) (activeDl : ActiveUeMap) (c : Cell) : Cell :=
  match S.assignDLRBG now c.world symAvail activeDl with
  | .ok (w, _) => { c with world := w, seen := c.seen ++ Scheduler.pointers activeDl }
  | .error _ => c

def step (S : Scheduler) (c : Cell) : CellOp → Cell
  | .assign now symAvail activeDl => c.assign S now symAvail activeDl
  | .reset => { c with world := { c.world with drlItf := c.world.drlItf.reset } }
  | .register p => { c with registered := c.registered ++ [p] }
  | .release p => { c with registered := c.registered.erase p, released := c.released ++ [p] }
  | .mac ues => { c with world := { c.world with ues := ues } }

/-- What the callers guarantee: a call is made with registered and clean UEs, each once, and
returns; a registered UE is a new object; a released UE is registered. -/
def Legal (S : Scheduler) (c : Cell) : CellOp → Prop
  | .assign now symAvail activeDl =>
      (∀ el ∈ activeDl, el.2 ≠ []) ∧ (Scheduler.pointers activeDl).Nodup ∧
        (∀ el ∈ activeDl, ∀ ue ∈ el.2, ue.1 ∈ c.registered ∧ (c.world.ues ue.1).Clean) ∧
        (S.assignDLRBG now c.world symAvail activeDl).isOk = true
  | .register p => p ∉ c.registered ∧ p ∉ c.released
  | .release p => p ∈ c.registered
  | _ => True

/-- The registry has no UE twice, every registered UE that was active, and no released UE. -/
structure RegistryOk (c : Cell) : Prop where
  nodup : (c.world.allUEs.map Prod.fst).Nodup
  complete : ∀ p ∈ c.registered, p ∈ c.seen → p ∈ c.world.allUEs.map Prod.fst
  released : ∀ p ∈ c.world.allUEs.map Prod.fst, p ∉ c.released

/-- The registry is right at the end of the step, if the step is a call. -/
def CallsKeepRegistry (S : Scheduler) (c : Cell) : CellOp → Prop
  | .assign now symAvail activeDl => RegistryOk (c.assign S now symAvail activeDl)
  | _ => True

/-- The step is no call with an active UE. -/
def Idle : CellOp → Prop
  | .assign _ _ activeDl => activeDl = []
  | _ => True

end Cell

namespace Scheduler

variable {S : Scheduler} {now : ℚ}

/-! ### Which UEs a call appends -/

/-- The entry of UEs appends some of them. -/
theorem allUEs_of_foldlM {beamSym : ℕ} : ∀ {l : List UePtrAndBufferReq} {w w' : World},
    l.foldlM (S.enterUe now beamSym) w = .ok w' →
      ∀ p ∈ w'.allUEs.map Prod.fst, p ∈ w.allUEs.map Prod.fst ∨ p ∈ l.map Prod.fst
  | [], w, w', h, p, hp => by
      cases h
      exact Or.inl hp
  | ue :: l, w, w', h, p, hp => by
      rw [List.foldlM_cons] at h
      obtain ⟨w₁, h1, h2⟩ := bind_eq_ok.mp h
      rw [List.map_cons, List.mem_cons]
      obtain hp | hp := allUEs_of_foldlM h2 p hp
      · rw [enterUe_ok h1] at hp
        simp only [registerUe] at hp
        split at hp
        · rw [List.map_append, List.mem_append] at hp
          obtain hp | hp := hp
          · exact Or.inl hp
          · exact Or.inr (Or.inl (by simpa using hp))
        · exact Or.inl hp
      · exact Or.inr (Or.inr hp)

variable {symPerBeam : BeamSymbolMap}

theorem allUEs_of_assignBeam {acc acc' : World × List FhQuery}
    {el : BeamId × List UePtrAndBufferReq}
    (h : S.assignBeam now symPerBeam acc el = .ok acc') :
    ∀ p ∈ acc'.1.allUEs.map Prod.fst,
      p ∈ acc.1.allUEs.map Prod.fst ∨ p ∈ el.2.map Prod.fst := by
  obtain ⟨e, s, r, he, hs, hr, rfl⟩ := assignBeam_ok h
  obtain ⟨_, h1, _⟩ := beamEntry_ok he
  have hentry := allUEs_of_foldlM h1
  exact hentry

theorem allUEs_of_assignBeams : ∀ {l : ActiveUeMap} {acc acc' : World × List FhQuery},
    l.foldlM (S.assignBeam now symPerBeam) acc = .ok acc' →
      ∀ p ∈ acc'.1.allUEs.map Prod.fst, p ∈ acc.1.allUEs.map Prod.fst ∨ p ∈ pointers l
  | [], acc, acc', h, p, hp => by
      cases h
      exact Or.inl hp
  | el :: l, acc, acc', h, p, hp => by
      rw [List.foldlM_cons] at h
      obtain ⟨acc₁, h1, h2⟩ := bind_eq_ok.mp h
      have hcons : pointers (el :: l) = el.2.map Prod.fst ++ pointers l := List.flatMap_cons
      rw [hcons, List.mem_append]
      obtain hp | hp := allUEs_of_assignBeams h2 p hp
      · obtain hp | hp := allUEs_of_assignBeam h1 p hp
        · exact Or.inl hp
        · exact Or.inr (Or.inl hp)
      · exact Or.inr (Or.inr hp)

/-- **The first active UE is not appended** by a call that starts with an empty registry and an
interface to which no UE was reported. -/
theorem first_not_registered {w w' : World} {symAvail : ℕ} {beam : BeamId}
    {ue : UePtrAndBufferReq} {ues : List UePtrAndBufferReq} {post : ActiveUeMap}
    (hall : w.allUEs = []) (hrep : w.drlItf.reported = ∅)
    (hn : (pointers ((beam, ue :: ues) :: post)).Nodup)
    (h : S.assignDLRBG now w symAvail ((beam, ue :: ues) :: post) = .ok (w', symPerBeam)) :
    ue.1 ∉ w'.allUEs.map Prod.fst := by
  have hcons : pointers ((beam, ue :: ues) :: post) =
      ue.1 :: (ues.map Prod.fst ++ pointers post) := List.flatMap_cons
  rw [hcons, List.nodup_cons, List.mem_append, not_or] at hn
  obtain ⟨⟨hues, hpost⟩, _⟩ := hn
  obtain ⟨acc, hacc, hclose⟩ := assignDLRBG_ok h
  rw [List.foldlM_cons] at hacc
  obtain ⟨acc₁, hbeam, hrest⟩ := bind_eq_ok.mp hacc
  obtain ⟨e, s, r, he, hs, hr, rfl⟩ := assignBeam_ok hbeam
  obtain ⟨_, h1, _⟩ := beamEntry_ok he
  rw [List.foldlM_cons] at h1
  obtain ⟨w₁, hfirst, hother⟩ := bind_eq_ok.mp h1
  have hempty : w₁.allUEs = [] := by
    have hcard : w.drlItf.getUEsNumber = 0 := by
      rw [Ns3DrlInterface.getUEsNumber_eq_card, hrep, Finset.card_empty]
    rw [enterUe_ok hfirst]
    simp [registerUe, hall, hcard]
  intro hp
  rw [hclose.allUEs] at hp
  obtain hp | hp := allUEs_of_assignBeams hrest ue.1 hp
  · obtain hp | hp := allUEs_of_foldlM hother ue.1 hp
    · rw [hempty] at hp
      cases hp
    · exact hues hp
  · exact hpost hp

end Scheduler

namespace Cell

variable {S : Scheduler}

/-- No call has had an active UE so far. -/
structure Fresh (c : Cell) : Prop where
  allUEs : c.world.allUEs = []
  reported : c.world.drlItf.reported = ∅
  seen : c.seen = []

theorem assign_ok {c : Cell} {now : ℚ} {symAvail : ℕ} {activeDl : ActiveUeMap} {w : World}
    {symPerBeam : BeamSymbolMap}
    (h : S.assignDLRBG now c.world symAvail activeDl = .ok (w, symPerBeam)) :
    c.assign S now symAvail activeDl =
      { c with world := w, seen := c.seen ++ Scheduler.pointers activeDl } := by
  unfold assign
  rw [h]

theorem fresh_assign {c : Cell} (hc : c.Fresh) (now : ℚ) (symAvail : ℕ) :
    (c.assign S now symAvail []).Fresh := by
  cases h : S.assignDLRBG now c.world symAvail [] with
  | error f =>
      unfold assign
      rw [h]
      exact hc
  | ok r =>
      obtain ⟨w, symPerBeam⟩ := r
      obtain ⟨acc, hacc, hclose⟩ := Scheduler.assignDLRBG_ok h
      cases hacc
      rw [assign_ok h]
      refine ⟨hclose.allUEs.trans hc.allUEs, hclose.reported.trans hc.reported, ?_⟩
      simp [hc.seen, Scheduler.pointers]

theorem RegistryOk.of_fresh {c : Cell} (hc : c.Fresh) : RegistryOk c where
  nodup := by simp [hc.allUEs]
  complete := fun p _ hp => by simp [hc.seen] at hp
  released := fun p hp => by simp [hc.allUEs] at hp

/-- **Step lemma.** From a state in which no call has had an active UE, a call leaves the
registry right exactly if it has none either. -/
theorem callsKeepRegistry_step {c : Cell} (hc : c.Fresh) {op : CellOp} (hl : Legal S c op) :
    CallsKeepRegistry S c op ↔ Idle op := by
  cases op with
  | assign now symAvail activeDl =>
      obtain ⟨hne, hn, hreg, hok⟩ := hl
      cases activeDl with
      | nil => exact ⟨fun _ => rfl, fun _ => RegistryOk.of_fresh (fresh_assign hc now symAvail)⟩
      | cons el post =>
          refine ⟨fun h => ?_, fun h => by cases h⟩
          obtain ⟨beam, l⟩ := el
          cases l with
          | nil => exact absurd rfl (hne _ List.mem_cons_self)
          | cons ue ues =>
              obtain ⟨⟨w, symPerBeam⟩, hcall⟩ := exists_of_isOk hok
              have hfirst := Scheduler.first_not_registered hc.allUEs hc.reported hn hcall
              have h' : RegistryOk (c.assign S now symAvail ((beam, ue :: ues) :: post)) := h
              rw [assign_ok hcall] at h'
              have hmem := (hreg (beam, ue :: ues) List.mem_cons_self ue List.mem_cons_self).1
              refine absurd (h'.complete ue.1 hmem ?_) hfirst
              refine List.mem_append_right _ (List.mem_flatMap.mpr ⟨_, List.mem_cons_self, ?_⟩)
              exact List.mem_map_of_mem List.mem_cons_self
  | reset => exact Iff.rfl
  | register p => exact Iff.rfl
  | release p => exact Iff.rfl
  | mac ues => exact Iff.rfl

theorem fresh_step {c : Cell} (hc : c.Fresh) {op : CellOp} (hi : Idle op) :
    (c.step S op).Fresh := by
  cases op with
  | assign now symAvail activeDl =>
      have hnil : activeDl = [] := hi
      subst hnil
      exact fresh_assign hc now symAvail
  | reset => exact ⟨hc.allUEs, Ns3DrlInterface.reported_reset _, hc.seen⟩
  | register p => exact ⟨hc.allUEs, hc.reported, hc.seen⟩
  | release p => exact ⟨hc.allUEs, hc.reported, hc.seen⟩
  | mac ues => exact ⟨hc.allUEs, hc.reported, hc.seen⟩

end Cell

/-- A cell before its first UE. -/
def Cell.initial (statics : DppaStatics) (ues : UePtr → UeInfo) : Cell where
  world := { ues := ues, statics := statics }

/-- **The registry** is right at the end of every call of a run exactly if no call of the run
has an active UE. -/
theorem registryOk_iff (S : Scheduler) (statics : DppaStatics) (ues : UePtr → UeInfo)
    (ops : List CellOp)
    (hl : Runs.AllSteps (Cell.step S) (Cell.Legal S) (.initial statics ues) ops) :
    Runs.AllSteps (Cell.step S) (Cell.CallsKeepRegistry S) (.initial statics ues) ops ↔
      Runs.AllSteps (Cell.step S) (fun _ op => Cell.Idle op) (.initial statics ues) ops := by
  refine Runs.allSteps_iff Cell.Fresh ?_ ?_ ⟨rfl, rfl, rfl⟩ hl
  · intro c op hc hop
    exact Cell.callsKeepRegistry_step hc hop
  · intro c op hc _ hi
    exact Cell.fresh_step hc hi

/-- One UE is registered and active in a call. -/
def Cell.oneCall : List CellOp := [.register 0, .assign 0 12 [(⟨0, 0⟩, [(0, 100)])]]

theorem Cell.oneCall_legal : Runs.AllSteps (Cell.step (.wideband [true]))
    (Cell.Legal (.wideband [true])) (.initial {} (World.fresh {} fun _ => 0).ues) Cell.oneCall := by
  refine ⟨⟨by simp [Cell.initial], by simp [Cell.initial]⟩,
    ⟨by simp, by decide, ?_, by decide +kernel⟩, trivial⟩
  intro el hel ue hue
  rw [List.mem_singleton.mp hel] at hue
  rw [List.mem_singleton.mp hue]
  exact ⟨by simp [Cell.step, Cell.initial], rfl, rfl, rfl⟩

theorem registryOk_oneCall : ¬ Runs.AllSteps (Cell.step (.wideband [true]))
    (Cell.CallsKeepRegistry (.wideband [true])) (.initial {} (World.fresh {} fun _ => 0).ues)
      Cell.oneCall := by
  intro h
  have hidle := (registryOk_iff (.wideband [true]) {} _ _ Cell.oneCall_legal).mp h
  exact absurd hidle.2.1 (by simp [Cell.Idle])

/-- At the end of the call the active UE is not in the registry. -/
theorem not_registryOk_first :
    ¬ ∀ (S : Scheduler) (statics : DppaStatics) (ues : UePtr → UeInfo) (ops : List CellOp),
      Runs.AllSteps (Cell.step S) (Cell.Legal S) (.initial statics ues) ops →
        Runs.AllSteps (Cell.step S) (Cell.CallsKeepRegistry S) (.initial statics ues) ops := by
  intro h
  obtain ⟨_, hreg, _⟩ := h (.wideband [true]) {} _ Cell.oneCall Cell.oneCall_legal
  have hcomplete := hreg.complete 0 (by decide +kernel) (by decide +kernel)
  exact absurd hcomplete (by decide +kernel)

end Rbis
