import Mathlib.Data.List.ProdSigma
import Rbis.Lib.Marks
import Rbis.Sched.Collision

/-! # The resource matrix of a slot

`ResourceAssignmentMatrix` has an entry for every symbol and RBG of a slot.  At the end of
`ScheduleDl` and `ScheduleUl`, `CheckResourceMatrixFromVarTtiAllocInfo` writes the allocations of
the slot into a new matrix, and an assertion fails if something is wrong with them.  It accepts
exactly the slots in which nothing collides (`check_iff`).  However a matrix is filled, the number
that it keeps for a UE is the number of entries the UE has (`tally_exact`).

The assertions cover every access, so the entries are a function.  The symbols of a loop are
`uint8_t`, as is the number of symbols of the matrix: the assertion on the number fails before a
symbol can wrap.  A bitmask has an entry for every RBG of the bandwidth, a `uint16_t`.
`m_beamIdAssigned` says which symbols have a beam.  Nothing in the scheduler sets `m_isOmni`. -/

namespace Rbis

open Cxx Fallible

/-- `EMPTY_RESOURCE_RNTI`, the largest `uint16_t`. -/
def emptyResourceRnti : ℕ := 65535

def ctrlResourceRnti : ℕ := emptyResourceRnti - 1

def omniBeamId : BeamId := ⟨65535, 65535⟩

inductive ResourceType where
  | empty
  | dlData
  | ulData
  | harq
  | srs
  | csiRs
  | pdschDmrs
  | puschDmrs
  | pbschDmrs
  | ptrs
  | trs
  | dlDci
  | ulDci
  | msg3
deriving DecidableEq

structure ResourceMatrixEntry where
  allocatedUe : ℕ
  allocatedResourceType : ResourceType

structure ResourceAssignmentMatrix where
  notchingMask : List Bool
  /-- The size of `m_symbolResources`. -/
  numSymbols : ℕ
  beamId : ℕ → Option BeamId
  /-- The entries, by symbol and RBG. -/
  entry : ℕ × ℕ → ResourceMatrixEntry
  ueNumberOfResources : ℕ → ℕ

namespace ResourceAssignmentMatrix

def new (notchingMask : List Bool) (numSymbols : ℕ) : ResourceAssignmentMatrix where
  notchingMask := notchingMask
  numSymbols := numSymbols
  beamId := fun _ => none
  entry := fun _ => ⟨emptyResourceRnti, .empty⟩
  ueNumberOfResources := fun _ => 0

/-- The loop of `AssignBeamIdToSymbols`, for one symbol. -/
def assignBeamId (beamId : BeamId) (m : ResourceAssignmentMatrix) (symbol : ℕ) :
    Except Fault ResourceAssignmentMatrix :=
  if m.numSymbols ≤ symbol then .error .assertion
  else if m.beamId symbol ≠ none ∧ m.beamId symbol ≠ some beamId then .error .assertion
  else .ok { m with beamId := Function.update m.beamId symbol (some beamId) }

def assignBeamIdToSymbols (beamId : BeamId) (startingSymbol numSymbols : ℕ)
    (m : ResourceAssignmentMatrix) : Except Fault ResourceAssignmentMatrix :=
  (List.range' startingSymbol numSymbols).foldlM (assignBeamId beamId) m

/-- The entry, which must be empty, is given to the UE. -/
def occupy (type : ResourceType) (rnti : ℕ) (m : ResourceAssignmentMatrix) (cell : ℕ × ℕ) :
    Except Fault ResourceAssignmentMatrix :=
  if (m.entry cell).allocatedUe ≠ emptyResourceRnti then .error .assertion
  else .ok { m with
    entry := Function.update m.entry cell ⟨rnti, type⟩
    ueNumberOfResources := Function.update m.ueNumberOfResources rnti
      ((m.ueNumberOfResources rnti + 1) % 2 ^ 32) }

/-- The loop of `AssignTdmaChannelDuringSymbolToUe`, for one symbol. -/
def assignChannel (type : ResourceType) (rnti : ℕ) (m : ResourceAssignmentMatrix) (symbol : ℕ) :
    Except Fault ResourceAssignmentMatrix :=
  if m.numSymbols ≤ symbol then .error .assertion
  else if m.notchingMask = [] then .error .assertion
  else (List.range m.notchingMask.length).foldlM (fun m rbg =>
    if m.notchingMask[rbg]? = some true then occupy type rnti m (symbol, rbg) else .ok m) m

def assignTdmaChannelDuringSymbolToUe (type : ResourceType) (rnti startingSymbol numSymbols : ℕ)
    (m : ResourceAssignmentMatrix) : Except Fault ResourceAssignmentMatrix :=
  (List.range' startingSymbol numSymbols).foldlM (assignChannel type rnti) m

def assignTdmaChannelDuringSymbolToCtrl (type : ResourceType) (startingSymbol numSymbols : ℕ)
    (m : ResourceAssignmentMatrix) : Except Fault ResourceAssignmentMatrix :=
  assignTdmaChannelDuringSymbolToUe type ctrlResourceRnti startingSymbol numSymbols m

/-- The types for which the notching mask counts. -/
def notchable : ResourceType → Bool
  | .dlData | .ulData | .srs | .msg3 | .harq => true
  | _ => false

/-- The loop of `AssignOfdmaRbgDuringSymbolToUe`, for one symbol. -/
def assignRbg (type : ResourceType) (rnti rbg : ℕ) (m : ResourceAssignmentMatrix) (symbol : ℕ) :
    Except Fault ResourceAssignmentMatrix :=
  if m.numSymbols ≤ symbol then .error .assertion
  else if m.notchingMask = [] then .error .assertion
  else if m.notchingMask.length ≤ rbg then .error .assertion
  else if notchable type = true ∧ m.notchingMask[rbg]? ≠ some true then .error .assertion
  else occupy type rnti m (symbol, rbg)

def assignOfdmaRbgDuringSymbolToUe (type : ResourceType)
    (rnti rbg startingSymbol numSymbols : ℕ) (m : ResourceAssignmentMatrix) :
    Except Fault ResourceAssignmentMatrix :=
  (List.range' startingSymbol numSymbols).foldlM (assignRbg type rnti rbg) m

def assignOfdmaRbgDuringSymbolToCtrl (type : ResourceType) (rbg startingSymbol numSymbols : ℕ)
    (m : ResourceAssignmentMatrix) : Except Fault ResourceAssignmentMatrix :=
  assignOfdmaRbgDuringSymbolToUe type ctrlResourceRnti rbg startingSymbol numSymbols m

/-! ### The check -/

/-- The type of the resources of an allocation. -/
def resourceType (d : DciInfoElementTdma) : ResourceType :=
  let type : ResourceType :=
    if d.type = .ctrl then if d.format = .dl then .dlDci else .ulDci
    else if d.rv > 0 then .harq
    else if d.format = .dl then .dlData
    else .ulData
  let type := if d.type = .srs then .srs else type
  if d.type = .msg3 then .msg3 else type

/-- The beam of an allocation; `ueMap` says which UEs there are, and their beams. -/
def beamOf (ueMap : ℕ → Option BeamId) (d : DciInfoElementTdma) : BeamId :=
  (ueMap d.rnti).getD omniBeamId

/-- The body of the loop over the allocations. -/
def writeAlloc (ueMap : ℕ → Option BeamId) (m : ResourceAssignmentMatrix) (alloc : VarTtiAllocInfo) :
    Except Fault ResourceAssignmentMatrix := do
  let d := alloc.dci
  let m ← m.assignBeamIdToSymbols (beamOf ueMap d) d.symStart d.numSym
  (List.range d.rbgBitmask.length).foldlM (fun m rbg =>
    if d.rbgBitmask[rbg]? = some true then
      m.assignOfdmaRbgDuringSymbolToUe (resourceType d) d.rnti rbg d.symStart d.numSym
    else .ok m) m

def checkResourceMatrixFromVarTtiAllocInfo (allocInfo : List VarTtiAllocInfo)
    (ueMap : ℕ → Option BeamId) (notchingMask : List Bool) (numSym : ℕ) :
    Except Fault ResourceAssignmentMatrix :=
  allocInfo.foldlM (writeAlloc ueMap) (new notchingMask numSym)

/-- What a slot must be like. -/
structure Sound (allocInfo : List VarTtiAllocInfo) (ueMap : ℕ → Option BeamId)
    (notchingMask : List Bool) (numSym : ℕ) : Prop where
  symbols : ∀ a ∈ allocInfo, ∀ s ∈ a.dci.symbols, s < numSym
  rbgs : ∀ a ∈ allocInfo, ∀ c ∈ a.dci.cells, c.2 < notchingMask.length ∧
    (notchable (resourceType a.dci) = true → notchingMask[c.2]? = some true)
  /-- A symbol has one beam. -/
  beams : allocInfo.Pairwise fun a b => ∀ s ∈ a.dci.symbols, s ∈ b.dci.symbols →
    beamOf ueMap a.dci = beamOf ueMap b.dci
  /-- No entry is given away twice, unless to the RNTI that marks the empty ones. -/
  cells : allocInfo.Pairwise fun a b =>
    a.dci.rnti ≠ emptyResourceRnti → Disjoint a.dci.cells b.dci.cells

/-! ### The single assignments of the check -/

inductive Action where
  | beam (beamId : BeamId) (symbol : ℕ)
  | rbg (type : ResourceType) (rnti rbg symbol : ℕ)

namespace Action

def perform (m : ResourceAssignmentMatrix) : Action → Except Fault ResourceAssignmentMatrix
  | beam beamId symbol => m.assignBeamId beamId symbol
  | rbg type rnti r symbol => m.assignRbg type rnti r symbol

/-- The entry of the matrix that the assignment writes: the beam of a symbol, or a cell. -/
def key : Action → ℕ ⊕ (ℕ × ℕ)
  | beam _ symbol => .inl symbol
  | rbg _ _ r symbol => .inr (symbol, r)

/-- What stands in the matrix: a beam or none, and an RNTI. -/
inductive Mark where
  | beam (beamId : Option BeamId)
  | ue (rnti : ℕ)

def mark : Action → Mark
  | beam beamId _ => .beam (some beamId)
  | rbg _ rnti _ _ => .ue rnti

/-- A symbol keeps its beam, and only an empty entry is given away. -/
def Goes : Mark → Mark → Prop
  | .beam b, .beam b' => b = none ∨ b = b'
  | .ue rnti, .ue _ => rnti = emptyResourceRnti
  | _, _ => False

/-- The entry exists, and is not notched. -/
def InBounds (notchingMask : List Bool) (numSym : ℕ) : Action → Prop
  | beam _ symbol => symbol < numSym
  | rbg type _ r symbol => symbol < numSym ∧ r < notchingMask.length ∧
      (notchable type = true → notchingMask[r]? = some true)

end Action

def lookup (m : ResourceAssignmentMatrix) : ℕ ⊕ (ℕ × ℕ) → Action.Mark
  | .inl symbol => .beam (m.beamId symbol)
  | .inr cell => .ue (m.entry cell).allocatedUe

theorem occupy_ok {type : ResourceType} {rnti : ℕ} {m m' : ResourceAssignmentMatrix}
    {cell : ℕ × ℕ} (h : m.occupy type rnti cell = .ok m') :
    (m.entry cell).allocatedUe = emptyResourceRnti ∧ m' = { m with
      entry := Function.update m.entry cell ⟨rnti, type⟩
      ueNumberOfResources := Function.update m.ueNumberOfResources rnti
        ((m.ueNumberOfResources rnti + 1) % 2 ^ 32) } := by
  unfold occupy at h
  split at h
  · cases h
  · next hempty =>
      cases h
      exact ⟨not_not.mp hempty, rfl⟩

theorem occupy_isOk (type : ResourceType) (rnti : ℕ) {m : ResourceAssignmentMatrix}
    {cell : ℕ × ℕ} (h : (m.entry cell).allocatedUe = emptyResourceRnti) :
    ∃ m', m.occupy type rnti cell = .ok m' := by
  unfold occupy
  rw [if_neg (not_not.mpr h)]
  exact ⟨_, rfl⟩

theorem assignRbg_ok {type : ResourceType} {rnti rbg symbol : ℕ} {m m' : ResourceAssignmentMatrix} :
    m.assignRbg type rnti rbg symbol = .ok m' ↔
      (symbol < m.numSymbols ∧ rbg < m.notchingMask.length ∧
        (notchable type = true → m.notchingMask[rbg]? = some true)) ∧
      m.occupy type rnti (symbol, rbg) = .ok m' := by
  unfold assignRbg
  constructor
  · intro h
    split at h
    · cases h
    split at h
    · cases h
    split at h
    · cases h
    split at h
    · cases h
    · next h1 _ h2 h3 =>
        exact ⟨⟨not_le.mp h1, not_le.mp h2, fun hn => not_not.mp fun he => h3 ⟨hn, he⟩⟩, h⟩
  · rintro ⟨⟨h1, h2, h3⟩, h⟩
    have hne : m.notchingMask ≠ [] := List.length_pos_iff.mp (by omega)
    rw [if_neg (not_le.mpr h1), if_neg hne, if_neg (not_le.mpr h2),
      if_neg fun hn => hn.2 (h3 hn.1)]
    exact h

theorem assignBeamId_ok {beamId : BeamId} {symbol : ℕ} {m m' : ResourceAssignmentMatrix} :
    m.assignBeamId beamId symbol = .ok m' ↔
      (symbol < m.numSymbols ∧ (m.beamId symbol = none ∨ m.beamId symbol = some beamId)) ∧
      m' = { m with beamId := Function.update m.beamId symbol (some beamId) } := by
  unfold assignBeamId
  constructor
  · intro h
    split at h
    · cases h
    split at h
    · cases h
    · next h1 h2 =>
        cases h
        exact ⟨⟨not_le.mp h1, by rwa [not_and_or, not_not, not_not] at h2⟩, rfl⟩
  · rintro ⟨⟨h1, h2⟩, rfl⟩
    rw [if_neg (not_le.mpr h1), if_neg (by rwa [not_and_or, not_not, not_not])]

/-- **Step lemma.** A single assignment puts a mark on its entry. -/
theorem marking (notchingMask : List Bool) (numSym : ℕ) :
    Marks.Marking Action.perform lookup
      (fun m => m.notchingMask = notchingMask ∧ m.numSymbols = numSym) Action.key Action.mark
      (Action.InBounds notchingMask numSym) Action.Goes where
  succeeds := by
    rintro m a ⟨rfl, rfl⟩
    cases a with
    | beam beamId symbol =>
        constructor
        · rintro ⟨m', h⟩
          exact (assignBeamId_ok.mp h).1
        · exact fun h => ⟨_, assignBeamId_ok.mpr ⟨h, rfl⟩⟩
    | rbg type rnti r symbol =>
        constructor
        · rintro ⟨m', h⟩
          obtain ⟨hown, h⟩ := assignRbg_ok.mp h
          exact ⟨hown, (occupy_ok h).1⟩
        · rintro ⟨hown, hempty⟩
          obtain ⟨m', h⟩ := occupy_isOk type rnti hempty
          exact ⟨m', assignRbg_ok.mpr ⟨hown, h⟩⟩
  marks := by
    intro m a m' h
    funext k
    cases a with
    | beam beamId symbol =>
        obtain ⟨-, rfl⟩ := assignBeamId_ok.mp h
        cases k with
        | inl s =>
            by_cases hs : s = symbol
            · rw [hs]
              simp [lookup, Action.key, Action.mark]
            · simp [lookup, Action.key, Action.mark, hs]
        | inr cell => rfl
    | rbg type rnti r symbol =>
        obtain ⟨-, rfl⟩ := occupy_ok (assignRbg_ok.mp h).2
        cases k with
        | inl s => rfl
        | inr cell =>
            by_cases hcell : cell = (symbol, r)
            · rw [hcell]
              simp [lookup, Action.key, Action.mark]
            · simp [lookup, Action.key, Action.mark, hcell]
  keeps := by
    intro m a m' h hm
    cases a with
    | beam beamId symbol =>
        obtain ⟨-, rfl⟩ := assignBeamId_ok.mp h
        exact hm
    | rbg type rnti r symbol =>
        obtain ⟨-, rfl⟩ := occupy_ok (assignRbg_ok.mp h).2
        exact hm
  trans := by
    rintro (b | r) (b' | r') (b'' | r'') h h'
    · rcases h with rfl | rfl
      · exact .inl rfl
      · exact h'
    · exact h'
    · exact h.elim
    · exact h.elim
    · exact h.elim
    · exact h.elim
    · exact h'.elim
    · exact h

/-! ### The check is exact -/

/-- The RBGs of the DCI, in the order of the bitmask. -/
def rbgList (d : DciInfoElementTdma) : List ℕ :=
  (List.range d.rbgBitmask.length).filter fun rbg => d.rbgBitmask[rbg]? = some true

theorem mem_rbgList {d : DciInfoElementTdma} {rbg : ℕ} : rbg ∈ rbgList d ↔ rbg ∈ d.rbgs := by
  rw [rbgList, List.mem_filter, List.mem_range, decide_eq_true_eq]
  refine and_iff_right_of_imp fun h => ?_
  exact (List.getElem?_eq_some_iff.mp h).1

def symbolList (d : DciInfoElementTdma) : List ℕ := List.range' d.symStart d.numSym

theorem mem_symbolList {d : DciInfoElementTdma} {s : ℕ} : s ∈ symbolList d ↔ s ∈ d.symbols := by
  rw [symbolList, List.mem_range'_1]
  exact Iff.rfl

/-- The assignments for the allocation, in the order of the loops. -/
def actions (ueMap : ℕ → Option BeamId) (a : VarTtiAllocInfo) : List Action :=
  (symbolList a.dci).map (.beam (beamOf ueMap a.dci)) ++
    (rbgList a.dci).flatMap fun rbg =>
      (symbolList a.dci).map (.rbg (resourceType a.dci) a.dci.rnti rbg)

theorem writeAlloc_eq (ueMap : ℕ → Option BeamId) (m : ResourceAssignmentMatrix)
    (a : VarTtiAllocInfo) : writeAlloc ueMap m a = (actions ueMap a).foldlM Action.perform m := by
  unfold writeAlloc actions
  rw [List.foldlM_append, List.foldlM_map]
  refine bind_congr fun m' => ?_
  rw [foldlM_flatMap, rbgList, List.foldlM_filter]
  simp only [List.foldlM_map, decide_eq_true_eq]
  rfl

theorem check_eq (allocInfo : List VarTtiAllocInfo) (ueMap : ℕ → Option BeamId)
    (notchingMask : List Bool) (numSym : ℕ) :
    checkResourceMatrixFromVarTtiAllocInfo allocInfo ueMap notchingMask numSym =
      (allocInfo.flatMap (actions ueMap)).foldlM Action.perform (new notchingMask numSym) := by
  rw [foldlM_flatMap]
  unfold checkResourceMatrixFromVarTtiAllocInfo
  simp only [← writeAlloc_eq]

theorem mem_actions {ueMap : ℕ → Option BeamId} {a : VarTtiAllocInfo} {x : Action} :
    x ∈ actions ueMap a ↔ (∃ s ∈ a.dci.symbols, x = .beam (beamOf ueMap a.dci) s) ∨
      ∃ c ∈ a.dci.cells, x = .rbg (resourceType a.dci) a.dci.rnti c.2 c.1 := by
  unfold actions
  rw [List.mem_append, List.mem_map, List.mem_flatMap]
  refine or_congr ?_ ?_
  · simp only [mem_symbolList, eq_comm]
  · simp only [List.mem_map, mem_symbolList, mem_rbgList]
    constructor
    · rintro ⟨rbg, hrbg, s, hs, rfl⟩
      exact ⟨(s, rbg), ⟨hs, hrbg⟩, rfl⟩
    · rintro ⟨c, ⟨hs, hrbg⟩, rfl⟩
      exact ⟨c.2, hrbg, c.1, hs, rfl⟩

/-- The assignments of one allocation are for different entries. -/
theorem nodup_keys (ueMap : ℕ → Option BeamId) (a : VarTtiAllocInfo) :
    ((actions ueMap a).map Action.key).Nodup := by
  have hsymbols : (symbolList a.dci).Nodup := List.nodup_range'
  have hrbgs : (rbgList a.dci).Nodup := List.nodup_range.filter _
  have hinj : ∀ r, Function.Injective fun s : ℕ => (Sum.inr (s, r) : ℕ ⊕ (ℕ × ℕ)) :=
    fun r s s' h => congrArg Prod.fst (Sum.inr_injective h)
  unfold actions
  rw [List.map_append, List.map_map, List.map_flatMap]
  simp only [List.map_map]
  refine List.nodup_append'.mpr ⟨hsymbols.map Sum.inl_injective, ?_, ?_⟩
  · refine List.nodup_flatMap.mpr ⟨fun r _ => hsymbols.map (hinj r), hrbgs.imp fun hne => ?_⟩
    intro k hk hk'
    obtain ⟨s, -, rfl⟩ := List.mem_map.mp hk
    obtain ⟨s', -, h⟩ := List.mem_map.mp hk'
    exact hne (congrArg Prod.snd (Sum.inr_injective h)).symm
  · intro k hk hk'
    obtain ⟨s, -, rfl⟩ := List.mem_map.mp hk
    obtain ⟨r, -, hk'⟩ := List.mem_flatMap.mp hk'
    obtain ⟨s', -, h⟩ := List.mem_map.mp hk'
    cases h

theorem inBounds_iff {allocInfo : List VarTtiAllocInfo} {ueMap : ℕ → Option BeamId}
    {notchingMask : List Bool} {numSym : ℕ} :
    (∀ x ∈ allocInfo.flatMap (actions ueMap), x.InBounds notchingMask numSym) ↔
      (∀ a ∈ allocInfo, ∀ s ∈ a.dci.symbols, s < numSym) ∧
        ∀ a ∈ allocInfo, ∀ c ∈ a.dci.cells, c.2 < notchingMask.length ∧
          (notchable (resourceType a.dci) = true → notchingMask[c.2]? = some true) := by
  constructor
  · intro h
    have hmem : ∀ a ∈ allocInfo, ∀ x ∈ actions ueMap a, x.InBounds notchingMask numSym :=
      fun a ha x hx => h x (List.mem_flatMap.mpr ⟨a, ha, hx⟩)
    refine ⟨fun a ha s hs => hmem a ha _ (mem_actions.mpr (.inl ⟨s, hs, rfl⟩)), ?_⟩
    exact fun a ha c hc => (hmem a ha _ (mem_actions.mpr (.inr ⟨c, hc, rfl⟩))).2
  · rintro ⟨hsymbols, hcells⟩ x hx
    obtain ⟨a, ha, hx⟩ := List.mem_flatMap.mp hx
    rcases mem_actions.mp hx with ⟨s, hs, rfl⟩ | ⟨c, hc, rfl⟩
    · exact hsymbols a ha s hs
    · exact ⟨hsymbols a ha c.1 hc.1, hcells a ha c hc⟩

theorem apart_iff {ueMap : ℕ → Option BeamId} {a b : VarTtiAllocInfo} :
    (∀ x ∈ actions ueMap a, ∀ y ∈ actions ueMap b, x.key = y.key → Action.Goes x.mark y.mark) ↔
      (∀ s ∈ a.dci.symbols, s ∈ b.dci.symbols → beamOf ueMap a.dci = beamOf ueMap b.dci) ∧
        (a.dci.rnti ≠ emptyResourceRnti → Disjoint a.dci.cells b.dci.cells) := by
  constructor
  · intro h
    constructor
    · intro s hs hs'
      have hgoes := h _ (mem_actions.mpr (.inl ⟨s, hs, rfl⟩)) _
        (mem_actions.mpr (.inl ⟨s, hs', rfl⟩)) rfl
      rcases hgoes with hnone | hsame
      · cases hnone
      · exact Option.some_inj.mp hsame
    · intro hne
      refine Set.disjoint_left.mpr fun c hc hc' => hne ?_
      exact h _ (mem_actions.mpr (.inr ⟨c, hc, rfl⟩)) _ (mem_actions.mpr (.inr ⟨c, hc', rfl⟩)) rfl
  · rintro ⟨hbeams, hcells⟩ x hx y hy hkey
    rcases mem_actions.mp hx with ⟨s, hs, rfl⟩ | ⟨c, hc, rfl⟩
    · rcases mem_actions.mp hy with ⟨s', hs', rfl⟩ | ⟨c', hc', rfl⟩
      · obtain rfl := Sum.inl_injective hkey
        exact .inr (congrArg some (hbeams s hs hs'))
      · cases hkey
    · rcases mem_actions.mp hy with ⟨s', hs', rfl⟩ | ⟨c', hc', rfl⟩
      · cases hkey
      · obtain rfl : c = c' := Sum.inr_injective hkey
        by_contra hne
        exact Set.disjoint_left.mp (hcells hne) hc hc'

/-- **The check accepts exactly the slots in which nothing collides.** -/
theorem check_iff (allocInfo : List VarTtiAllocInfo) (ueMap : ℕ → Option BeamId)
    (notchingMask : List Bool) (numSym : ℕ) :
    (∃ m, checkResourceMatrixFromVarTtiAllocInfo allocInfo ueMap notchingMask numSym = .ok m) ↔
      Sound allocInfo ueMap notchingMask numSym := by
  have hempty : ∀ x : Action, Action.Goes (lookup (new notchingMask numSym) x.key) x.mark := by
    intro x
    cases x with
    | beam => exact .inl rfl
    | rbg => exact rfl
  have hone : ∀ a ∈ allocInfo, (actions ueMap a).Pairwise fun x y =>
      x.key = y.key → Action.Goes x.mark y.mark := by
    intro a _
    exact (List.pairwise_map.mp (nodup_keys ueMap a)).imp fun hne hkey => absurd hkey hne
  rw [check_eq, Marks.foldlM_marks (marking notchingMask numSym) ⟨rfl, rfl⟩, inBounds_iff,
    List.pairwise_flatMap]
  simp only [apart_iff]
  rw [List.pairwise_and_iff]
  constructor
  · rintro ⟨⟨hsymbols, hrbgs⟩, -, -, hbeams, hcells⟩
    exact ⟨hsymbols, hrbgs, hbeams, hcells⟩
  · rintro ⟨hsymbols, hrbgs, hbeams, hcells⟩
    exact ⟨⟨hsymbols, hrbgs⟩, fun x _ => hempty x, hone, hbeams, hcells⟩

/-! ### The numbers -/

/-- The cells of the matrix, symbol by symbol. -/
def cellList (m : ResourceAssignmentMatrix) : List (ℕ × ℕ) :=
  List.range m.numSymbols ×ˢ List.range m.notchingMask.length

def getAssignedResourcesTotal (m : ResourceAssignmentMatrix) : ℕ :=
  m.cellList.countP fun c => m.notchingMask[c.2]? ≠ some true ∨
    (m.entry c).allocatedUe ≠ emptyResourceRnti

def getFreeResourcesTotal (m : ResourceAssignmentMatrix) : ℕ :=
  m.cellList.countP fun c => m.notchingMask[c.2]? = some true ∧
    (m.entry c).allocatedUe = emptyResourceRnti

/-- The cells of a UE, each with the beam of its symbol. -/
def getAssignedResourcesToUe (m : ResourceAssignmentMatrix) (rnti : ℕ) :
    List (Option BeamId × ℕ × ℕ) :=
  (m.cellList.filter fun c => (m.entry c).allocatedUe = rnti).map fun c => (m.beamId c.1, c.2, c.1)

def getNumAssignedResourcesToUe (m : ResourceAssignmentMatrix) (rnti : ℕ) : ℕ :=
  m.ueNumberOfResources rnti

/-- A call of a method that fills the matrix. -/
inductive Call where
  | beam (beamId : BeamId) (startingSymbol numSymbols : ℕ)
  | tdma (type : ResourceType) (rnti startingSymbol numSymbols : ℕ)
  | ofdma (type : ResourceType) (rnti rbg startingSymbol numSymbols : ℕ)
  | tdmaCtrl (type : ResourceType) (startingSymbol numSymbols : ℕ)
  | ofdmaCtrl (type : ResourceType) (rbg startingSymbol numSymbols : ℕ)

def call (m : ResourceAssignmentMatrix) : Call → Except Fault ResourceAssignmentMatrix
  | .beam beamId startingSymbol numSymbols =>
      m.assignBeamIdToSymbols beamId startingSymbol numSymbols
  | .tdma type rnti startingSymbol numSymbols =>
      m.assignTdmaChannelDuringSymbolToUe type rnti startingSymbol numSymbols
  | .ofdma type rnti rbg startingSymbol numSymbols =>
      m.assignOfdmaRbgDuringSymbolToUe type rnti rbg startingSymbol numSymbols
  | .tdmaCtrl type startingSymbol numSymbols =>
      m.assignTdmaChannelDuringSymbolToCtrl type startingSymbol numSymbols
  | .ofdmaCtrl type rbg startingSymbol numSymbols =>
      m.assignOfdmaRbgDuringSymbolToCtrl type rbg startingSymbol numSymbols

/-- The cells of a UE. -/
def holdings (m : ResourceAssignmentMatrix) (rnti : ℕ) : Finset (ℕ × ℕ) :=
  (m.cellList.filter fun c => (m.entry c).allocatedUe = rnti).toFinset

theorem nodup_cellList (m : ResourceAssignmentMatrix) : m.cellList.Nodup :=
  List.nodup_range.product List.nodup_range

theorem mem_cellList {m : ResourceAssignmentMatrix} {c : ℕ × ℕ} :
    c ∈ m.cellList ↔ c.1 < m.numSymbols ∧ c.2 < m.notchingMask.length := by
  obtain ⟨s, r⟩ := c
  rw [cellList, List.mem_product, List.mem_range, List.mem_range]

theorem length_cellList (m : ResourceAssignmentMatrix) :
    m.cellList.length = m.numSymbols * m.notchingMask.length := by
  rw [cellList, List.length_product, List.length_range, List.length_range]

theorem mem_holdings {m : ResourceAssignmentMatrix} {rnti : ℕ} {c : ℕ × ℕ} :
    c ∈ m.holdings rnti ↔ (c.1 < m.numSymbols ∧ c.2 < m.notchingMask.length) ∧
      (m.entry c).allocatedUe = rnti := by
  rw [holdings, List.mem_toFinset, List.mem_filter, mem_cellList, decide_eq_true_eq]

theorem card_holdings (m : ResourceAssignmentMatrix) (rnti : ℕ) :
    (m.holdings rnti).card = (m.getAssignedResourcesToUe rnti).length := by
  rw [holdings, List.toFinset_card_of_nodup (m.nodup_cellList.filter _), getAssignedResourcesToUe,
    List.length_map]

/-- The numbers are right, and the matrix keeps its size. -/
structure Tallied (notchingMask : List Bool) (numSym : ℕ) (m : ResourceAssignmentMatrix) :
    Prop where
  mask : m.notchingMask = notchingMask
  size : m.numSymbols = numSym
  tally : ∀ rnti, rnti ≠ emptyResourceRnti →
    m.ueNumberOfResources rnti = (m.holdings rnti).card

theorem tallied_new (notchingMask : List Bool) (numSym : ℕ) :
    Tallied notchingMask numSym (new notchingMask numSym) := by
  refine ⟨rfl, rfl, fun rnti hne => ?_⟩
  have hnone : (new notchingMask numSym).holdings rnti = ∅ := by
    refine Finset.eq_empty_of_forall_notMem fun c hc => hne ?_
    exact (mem_holdings.mp hc).2.symm
  rw [hnone]
  rfl

variable {notchingMask : List Bool} {numSym : ℕ} {m m' : ResourceAssignmentMatrix}

/-- **Step lemma.** One entry more, and one more in the number of its UE. -/
theorem Tallied.occupy (h : Tallied notchingMask numSym m)
    (hsize : numSym * notchingMask.length < 2 ^ 32) {type : ResourceType} {rnti : ℕ} {c : ℕ × ℕ}
    (hc : c.1 < m.numSymbols ∧ c.2 < m.notchingMask.length)
    (hm' : m.occupy type rnti c = .ok m') : Tallied notchingMask numSym m' := by
  obtain ⟨hempty, hm'⟩ := occupy_ok hm'
  have hentry : ∀ c', (m'.entry c').allocatedUe =
      if c' = c then rnti else (m.entry c').allocatedUe := by
    intro c'
    rw [hm']
    dsimp only
    rw [Function.update_apply]
    split
    · rfl
    · rfl
  have hcells : m'.numSymbols = m.numSymbols ∧ m'.notchingMask = m.notchingMask := by
    rw [hm']
    exact ⟨rfl, rfl⟩
  refine ⟨hcells.2.trans h.mask, hcells.1.trans h.size, fun r hr => ?_⟩
  have htally := h.tally r hr
  by_cases hrnti : r = rnti
  · have hnew : c ∉ m.holdings r := fun hmem =>
      hr ((mem_holdings.mp hmem).2.symm.trans hempty)
    have hinsert : m'.holdings r = insert c (m.holdings r) := by
      ext c'
      rw [Finset.mem_insert, mem_holdings, mem_holdings, hcells.1, hcells.2, hentry]
      by_cases hcc : c' = c
      · rw [if_pos hcc, hcc]
        exact iff_of_true ⟨hc, hrnti.symm⟩ (.inl rfl)
      · rw [if_neg hcc, or_iff_right hcc]
    have hcard : (insert c (m.holdings r)).card ≤ m.cellList.length := by
      rw [← List.toFinset_card_of_nodup m.nodup_cellList]
      refine Finset.card_le_card fun c' hc' => List.mem_toFinset.mpr (mem_cellList.mpr ?_)
      rcases Finset.mem_insert.mp hc' with rfl | hc'
      · exact hc
      · exact (mem_holdings.mp hc').1
    rw [length_cellList, h.size, h.mask, Finset.card_insert_of_notMem hnew] at hcard
    rw [hinsert, Finset.card_insert_of_notMem hnew, ← htally, hm', hrnti]
    dsimp only
    rw [Function.update_self, ← hrnti, htally, Nat.mod_eq_of_lt (by omega)]
  · have hsame : m'.holdings r = m.holdings r := by
      ext c'
      rw [mem_holdings, mem_holdings, hcells.1, hcells.2, hentry]
      by_cases hcc : c' = c
      · rw [if_pos hcc, hcc, hempty]
        exact iff_of_false (fun hmem => hrnti hmem.2.symm) fun hmem => hr hmem.2.symm
      · rw [if_neg hcc]
    rw [hsame, ← htally, hm']
    dsimp only
    rw [Function.update_of_ne hrnti]

theorem Tallied.tdma (h : Tallied notchingMask numSym m)
    (hsize : numSym * notchingMask.length < 2 ^ 32) {type : ResourceType}
    {rnti startingSymbol numSymbols : ℕ}
    (hm' : m.assignTdmaChannelDuringSymbolToUe type rnti startingSymbol numSymbols = .ok m') :
    Tallied notchingMask numSym m' := by
  refine foldlM_ok (P := Tallied notchingMask numSym) (fun s _ m m' h hm' => ?_) h hm'
  unfold assignChannel at hm'
  split at hm'
  · cases hm'
  split at hm'
  · cases hm'
  · next hs _ =>
      have hlt : s < numSym := h.size ▸ not_le.mp hs
      refine foldlM_ok (P := Tallied notchingMask numSym) (fun rbg hrbg m m' h hm' => ?_) h hm'
      split at hm'
      · next hallowed =>
          have hrbg' := (List.getElem?_eq_some_iff.mp hallowed).1
          exact h.occupy hsize ⟨h.size ▸ hlt, hrbg'⟩ hm'
      · cases hm'
        exact h

theorem Tallied.ofdma (h : Tallied notchingMask numSym m)
    (hsize : numSym * notchingMask.length < 2 ^ 32) {type : ResourceType}
    {rnti rbg startingSymbol numSymbols : ℕ}
    (hm' : m.assignOfdmaRbgDuringSymbolToUe type rnti rbg startingSymbol numSymbols = .ok m') :
    Tallied notchingMask numSym m' := by
  refine foldlM_ok (P := Tallied notchingMask numSym) (fun s _ m m' h hm' => ?_) h hm'
  obtain ⟨⟨hs, hrbg, -⟩, hm'⟩ := assignRbg_ok.mp hm'
  exact h.occupy hsize ⟨hs, hrbg⟩ hm'

/-- **Step lemma** of the methods. -/
theorem Tallied.call (h : Tallied notchingMask numSym m)
    (hsize : numSym * notchingMask.length < 2 ^ 32) {c : Call} (hm' : m.call c = .ok m') :
    Tallied notchingMask numSym m' := by
  cases c with
  | beam beamId startingSymbol numSymbols =>
      refine foldlM_ok (P := Tallied notchingMask numSym) (fun s _ m m' h hm' => ?_) h hm'
      obtain ⟨-, rfl⟩ := assignBeamId_ok.mp hm'
      exact ⟨h.mask, h.size, h.tally⟩
  | tdma type rnti startingSymbol numSymbols => exact h.tdma hsize hm'
  | ofdma type rnti rbg startingSymbol numSymbols => exact h.ofdma hsize hm'
  | tdmaCtrl type startingSymbol numSymbols => exact h.tdma hsize hm'
  | ofdmaCtrl type rbg startingSymbol numSymbols => exact h.ofdma hsize hm'

/-- **The number of a UE is the number of its entries**, however the matrix was filled, and every
entry is free or assigned. -/
theorem tally_exact (notchingMask : List Bool) (numSym : ℕ) (calls : List Call)
    (hmask : notchingMask.length < 2 ^ 16) (hsym : numSym < 2 ^ 8) {m : ResourceAssignmentMatrix}
    (h : calls.foldlM call (new notchingMask numSym) = .ok m) :
    (∀ rnti, rnti ≠ emptyResourceRnti →
      m.getNumAssignedResourcesToUe rnti = (m.getAssignedResourcesToUe rnti).length) ∧
    m.getAssignedResourcesTotal + m.getFreeResourcesTotal = numSym * notchingMask.length := by
  have hsize : numSym * notchingMask.length < 2 ^ 32 := by
    calc numSym * notchingMask.length ≤ 2 ^ 8 * 2 ^ 16 := Nat.mul_le_mul hsym.le hmask.le
      _ < 2 ^ 32 := by norm_num
  have hm : Tallied notchingMask numSym m :=
    foldlM_ok (fun c _ _ _ hm hm' => hm.call hsize hm') (tallied_new notchingMask numSym) h
  refine ⟨fun rnti hne => (hm.tally rnti hne).trans (m.card_holdings rnti), ?_⟩
  rw [← hm.size, ← hm.mask, ← length_cellList, getAssignedResourcesTotal, getFreeResourcesTotal,
    List.length_eq_countP_add_countP fun c => decide (m.notchingMask[c.2]? ≠ some true ∨
      (m.entry c).allocatedUe ≠ emptyResourceRnti)]
  refine congrArg _ (List.countP_congr fun c _ => ?_)
  simp

/-- UE 5 gets the first symbol, and UE 7 an RBG of the two others. -/
def twoUes : List Call :=
  [.beam ⟨1, 0⟩ 0 1, .tdma .dlData 5 0 1, .beam ⟨2, 0⟩ 1 2, .ofdma .ulData 7 2 1 2]

theorem tally_exact_twoUes :
    ∃ m, twoUes.foldlM call (new [true, false, true] 3) = .ok m ∧
      (∀ rnti, rnti ≠ emptyResourceRnti →
        m.getNumAssignedResourcesToUe rnti = (m.getAssignedResourcesToUe rnti).length) ∧
      m.getAssignedResourcesTotal + m.getFreeResourcesTotal = 9 := by
  obtain ⟨m, hm⟩ := exists_of_isOk
    (show (twoUes.foldlM call (new [true, false, true] 3)).isOk = true by decide +kernel)
  exact ⟨m, hm, tally_exact [true, false, true] 3 twoUes (by decide) (by decide) hm⟩

end ResourceAssignmentMatrix

end Rbis
