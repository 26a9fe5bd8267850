import Mathlib.Data.List.Chain
import Rbis.Server.Service

/-! # The training state in the files

The counters of the training are kept in the last line of a learning curve.  `configure` writes the
header and reads the counters, `infer_sched_config` appends rows, and a file of one line counts as
one without rows.  A row that is appended to a file without a header is therefore not seen by
`load_training_state` and removed by the next `/configure`. -/

namespace Rbis

open Cxx

/-! ### Learning curves -/

/-- The index and the step of a row. -/
def CurveLine.row? : CurveLine → Option (ℤ × ℤ)
  | .row index step => some (index, step)
  | .other => none

/-- The rows of a file. -/
def rowsOf (lines : List CurveLine) : List (ℤ × ℤ) := lines.filterMap CurveLine.row?

/-- The row that follows another one. -/
def NextRow (r r' : ℤ × ℤ) : Prop := r'.1 = r.1 + 1 ∧ r.2 < r'.2

/-- The index column is consecutive and the step column strictly increasing. -/
def Ordered (lines : List CurveLine) : Prop := List.IsChain NextRow (rowsOf lines)

/-- A file with a header and these rows. -/
def curveOf (rows : List (ℤ × ℤ)) : List CurveLine :=
  .other :: rows.map fun r => .row r.1 r.2

/-- There is no file, or it has a header and ordered rows. -/
def WellFormed (lines : List CurveLine) : Prop :=
  lines = [] ∨ ∃ rows, lines = curveOf rows ∧ List.IsChain NextRow rows

theorem rowsOf_curveOf (rows : List (ℤ × ℤ)) : rowsOf (curveOf rows) = rows := by
  unfold rowsOf curveOf
  rw [List.filterMap_cons, List.filterMap_map]
  exact List.filterMap_some

theorem curveOf_concat (rows : List (ℤ × ℤ)) (i st : ℤ) :
    curveOf rows ++ [.row i st] = curveOf (rows ++ [(i, st)]) := by
  simp [curveOf]

theorem getLast?_curveOf (rows : List (ℤ × ℤ)) :
    (curveOf rows).getLast? =
      some (rows.getLast?.elim CurveLine.other fun r => .row r.1 r.2) := by
  unfold curveOf
  rw [List.getLast?_cons, List.getLast?_map]
  cases rows.getLast? with
  | none => rfl
  | some r => rfl

namespace WellFormed

theorem ordered {lines : List CurveLine} (h : WellFormed lines) : Ordered lines := by
  rcases h with rfl | ⟨rows, rfl, hrows⟩
  · exact List.IsChain.nil
  · rw [Ordered, rowsOf_curveOf]
    exact hrows

theorem header : WellFormed [.other] := Or.inr ⟨[], rfl, List.IsChain.nil⟩

end WellFormed

/-! ### Counters and files -/

namespace Server

theorem savedCounters_of_curve {s : Server} {rows : List (ℤ × ℤ)}
    (h : s.curves s.envType = curveOf rows) :
    s.savedCounters = rows.getLast?.map fun r => (r.1 + 1, r.2) := by
  unfold savedCounters
  rw [h, getLast?_curveOf]
  cases hr : rows.getLast? with
  | none => simp
  | some r =>
      have hlen : 1 < (curveOf rows).length := by
        cases rows with
        | nil => simp at hr
        | cons r rows => simp [curveOf]
      rw [if_pos hlen]
      rfl

theorem savedCounters_of_empty {s : Server} (h : s.curves s.envType = []) :
    s.savedCounters = none := by
  unfold savedCounters
  rw [h]
  rfl

/-- The counters continue the file of the current `env_type`, which has a header. -/
def Continues (s : Server) : Prop :=
  match (s.curves s.envType).getLast? with
  | none => False
  | some .other => True
  | some (.row index step) => s.csvIndex = index + 1 ∧ step ≤ s.stepsCounter

/-- The files are well-formed; while there is none for the current `env_type`, the index is not
negative. -/
structure CurvesOk (s : Server) : Prop where
  wellFormed : ∀ envType, WellFormed (s.curves envType)
  csvIndex : s.curves s.envType = [] → 0 ≤ s.csvIndex

/-- `load_training_state` sets the counters to their current values. -/
def LoadsCurrent (s : Server) : Prop :=
  s.loadTrainingState.1.csvIndex = s.csvIndex ∧ s.loadTrainingState.1.stepsCounter = s.stepsCounter

namespace TrainingRecord

/-- A step that is logged. -/
def log (r : TrainingRecord) : TrainingRecord :=
  { r with
    stepsCounter := r.stepsCounter + 1
    csvIndex := r.csvIndex + 1
    curves := Function.update r.curves r.envType
      (r.curves r.envType ++ [.row r.csvIndex (r.stepsCounter + 1)]) }

end TrainingRecord

/-- The request logs a row: it is about four UEs at least, its arrays are long enough, and it does
not save the model of a learner that has none. -/
def Logs (req : InferRequest) (s : Server) : Prop :=
  4 ≤ req.mcs.length ∧ (encodeMcs s.envType req).isOk = true ∧
    (s.transitionMode = true ∨
      ¬ (s.csvIndex = 20000 ∧ s.modelType.bind Algorithm.ofName ≠ none ∧ s.model = none))

theorem record_inferTransition (mcs : List ℤ) (s : Server) :
    (s.inferTransition mcs).1.record = s.logStep.record := by
  unfold inferTransition
  dsimp only
  split
  · rfl
  · rfl

/-- **What a request does to the record.** -/
theorem record_infer (o : Options) (req : InferRequest) (s : Server) :
    (s.Logs req → (s.infer o req).1.record = s.record.log) ∧
    (¬ s.Logs req → (s.infer o req).1.record = s.record ∨
      (s.infer o req).1.record = { s.record with stepsCounter := s.stepsCounter + 1 }) := by
  unfold infer Logs
  by_cases hlen : req.mcs.length < 4
  · rw [if_pos hlen]
    exact ⟨fun h => absurd h.1 (by omega), fun _ => Or.inl rfl⟩
  · rw [if_neg hlen]
    cases henc : encodeMcs s.envType req with
    | error e =>
        refine ⟨fun h => ?_, fun _ => Or.inl rfl⟩
        cases h.2.1
    | ok mcs =>
        dsimp only
        by_cases ht : s.transitionMode = true
        · rw [if_pos ht, record_inferTransition]
          refine ⟨fun _ => rfl, fun h => absurd ⟨by omega, rfl, Or.inl ht⟩ h⟩
        · rw [if_neg ht]
          unfold inferTrain
          split
          · next hsave =>
              refine ⟨fun h => ?_, fun _ => Or.inr rfl⟩
              exact absurd hsave (h.2.2.resolve_left ht)
          · next hsave =>
              refine ⟨fun _ => rfl, fun h => absurd ⟨by omega, rfl, Or.inr hsave⟩ h⟩

/-! ### One request -/

section Steps

variable {s s' : Server}

theorem log_curve (h : s'.record = s.record.log) {rows : List (ℤ × ℤ)}
    (hf : s.curves s.envType = curveOf rows) :
    s'.curves s'.envType = curveOf (rows ++ [(s.csvIndex, s.stepsCounter + 1)]) := by
  have hcurves : s'.curves = Function.update s.curves s.envType
      (s.curves s.envType ++ [.row s.csvIndex (s.stepsCounter + 1)]) :=
    congrArg TrainingRecord.curves h
  have htype : s'.envType = s.envType := congrArg TrainingRecord.envType h
  rw [hcurves, htype, Function.update_self, hf, curveOf_concat]

theorem log_curve_other (h : s'.record = s.record.log) {envType : String}
    (he : envType ≠ s.envType) : s'.curves envType = s.curves envType := by
  have hcurves : s'.curves = Function.update s.curves s.envType
      (s.curves s.envType ++ [.row s.csvIndex (s.stepsCounter + 1)]) :=
    congrArg TrainingRecord.curves h
  rw [hcurves, Function.update_of_ne he]

theorem continues_iff {rows : List (ℤ × ℤ)} (hf : s.curves s.envType = curveOf rows)
    (hrows : List.IsChain NextRow rows) :
    s.Continues ↔ List.IsChain NextRow (rows ++ [(s.csvIndex, s.stepsCounter + 1)]) := by
  rw [List.isChain_append, Continues, hf, getLast?_curveOf]
  cases hlast : rows.getLast? with
  | none => simp [hrows]
  | some r =>
      refine (and_congr_right fun _ => Int.lt_add_one_iff.symm).trans ?_
      simp [hrows, NextRow]

theorem not_loadsCurrent_of_empty (hs : s.CurvesOk) (h : s'.record = s.record.log)
    (hf : s.curves s.envType = []) : ¬ s'.LoadsCurrent := by
  have hcurves : s'.curves s'.envType = [.row s.csvIndex (s.stepsCounter + 1)] := by
    have hc : s'.curves = Function.update s.curves s.envType
        (s.curves s.envType ++ [.row s.csvIndex (s.stepsCounter + 1)]) :=
      congrArg TrainingRecord.curves h
    have htype : s'.envType = s.envType := congrArg TrainingRecord.envType h
    rw [hc, htype, Function.update_self, hf]
    rfl
  have hnone : s'.savedCounters = none := by
    unfold savedCounters
    rw [hcurves]
    rfl
  have hcsv : s'.csvIndex = s.csvIndex + 1 := congrArg TrainingRecord.csvIndex h
  rintro ⟨hload, -⟩
  rw [loadTrainingState_eq, hnone, hcsv] at hload
  have hnonneg := hs.csvIndex hf
  simp at hload
  omega

/-- **A row is logged well** exactly if the counters continue the file. -/
theorem log_good_iff (hs : s.CurvesOk) (h : s'.record = s.record.log) :
    (s'.LoadsCurrent ∧ ∀ envType, Ordered (s'.curves envType)) ↔ s.Continues := by
  rcases hs.wellFormed s.envType with hempty | ⟨rows, hf, hrows⟩
  · refine iff_of_false (fun hg => not_loadsCurrent_of_empty hs h hempty hg.1) ?_
    rw [Continues, hempty]
    exact not_false
  · have hcurve := log_curve h hf
    have hloads : s'.LoadsCurrent := by
      have hcsv : s'.csvIndex = s.csvIndex + 1 := congrArg TrainingRecord.csvIndex h
      have hsteps : s'.stepsCounter = s.stepsCounter + 1 := congrArg TrainingRecord.stepsCounter h
      have hsaved : s'.savedCounters = some (s.csvIndex + 1, s.stepsCounter + 1) := by
        rw [savedCounters_of_curve hcurve]
        simp
      unfold LoadsCurrent
      rw [loadTrainingState_eq, hsaved, hcsv, hsteps]
      exact ⟨rfl, rfl⟩
    have hother : ∀ envType, envType ≠ s.envType → Ordered (s'.curves envType) := by
      intro envType he
      rw [log_curve_other h he]
      exact (hs.wellFormed envType).ordered
    have htype : s'.envType = s.envType := congrArg TrainingRecord.envType h
    rw [continues_iff hf hrows, and_iff_right hloads]
    constructor
    · intro hord
      have := hord s'.envType
      rwa [hcurve, Ordered, rowsOf_curveOf] at this
    · intro hchain envType
      by_cases he : envType = s.envType
      · rw [he, ← htype, hcurve, Ordered, rowsOf_curveOf]
        exact hchain
      · exact hother envType he

theorem log_curvesOk (hs : s.CurvesOk) (h : s'.record = s.record.log) (hc : s.Continues) :
    s'.CurvesOk := by
  have htype : s'.envType = s.envType := congrArg TrainingRecord.envType h
  rcases hs.wellFormed s.envType with hempty | ⟨rows, hf, hrows⟩
  · rw [Continues, hempty] at hc
    exact hc.elim
  · have hcurve := log_curve h hf
    refine ⟨fun envType => ?_, fun hnil => ?_⟩
    · by_cases he : envType = s.envType
      · rw [he, ← htype, hcurve]
        exact Or.inr ⟨_, rfl, (continues_iff hf hrows).mp hc⟩
      · rw [log_curve_other h he]
        exact hs.wellFormed envType
    · rw [hcurve] at hnil
      cases hnil

theorem CurvesOk.congr (hs : s.CurvesOk) (hcurves : s'.curves = s.curves)
    (htype : s'.envType = s.envType) (hcsv : s'.csvIndex = s.csvIndex) : s'.CurvesOk := by
  refine ⟨fun envType => ?_, fun hnil => ?_⟩
  · rw [hcurves]
    exact hs.wellFormed envType
  · rw [hcsv]
    rw [hcurves, htype] at hnil
    exact hs.csvIndex hnil

theorem rowsOf_of_savedCounters_none (h : WellFormed (s.curves s.envType))
    (hnone : s.savedCounters = none) : rowsOf (s.curves s.envType) = [] := by
  rcases h with hempty | ⟨rows, hf, -⟩
  · rw [hempty]
    rfl
  · rw [savedCounters_of_curve hf, Option.map_eq_none_iff, List.getLast?_eq_none_iff] at hnone
    rw [hf, rowsOf_curveOf, hnone]

/-- **A configuration removes no row** and leaves the files well-formed. -/
theorem configure_curves (o : Options) (lib : Libraries) (req : ConfigureRequest)
    (hs : s.CurvesOk) :
    (s.configure o lib req).1.CurvesOk ∧
      ∀ envType, rowsOf (s.curves envType) <+: rowsOf ((s.configure o lib req).1.curves envType) := by
  have hrecord := record_configure o lib req s
  generalize (s.configure o lib req).1 = s' at hrecord ⊢
  rcases hrecord with h | ⟨hnone, h⟩
  · have hcurves : s'.curves = s.curves := congrArg TrainingRecord.curves h
    have htype : s'.envType = req.envType := congrArg TrainingRecord.envType h
    have hcsv : s'.csvIndex = ({ s with envType := req.envType }.savedCounters.getD (0, 0)).1 :=
      congrArg TrainingRecord.csvIndex h
    rw [hcurves]
    refine ⟨⟨fun envType => ?_, fun hnil => ?_⟩, fun envType => List.prefix_rfl⟩
    · rw [hcurves]
      exact hs.wellFormed envType
    · rw [hcurves, htype] at hnil
      rw [hcsv, savedCounters_of_empty (s := { s with envType := req.envType }) hnil]
      exact le_refl 0
  · have hcurves : s'.curves = Function.update s.curves req.envType [.other] :=
      congrArg TrainingRecord.curves h
    have htype : s'.envType = req.envType := congrArg TrainingRecord.envType h
    rw [hcurves]
    refine ⟨⟨fun envType => ?_, fun hnil => ?_⟩, fun envType => ?_⟩
    · rw [hcurves]
      by_cases he : envType = req.envType
      · rw [he, Function.update_self]
        exact WellFormed.header
      · rw [Function.update_of_ne he]
        exact hs.wellFormed envType
    · rw [hcurves, htype, Function.update_self] at hnil
      cases hnil
    · by_cases he : envType = req.envType
      · have hrows : rowsOf (s.curves req.envType) = [] :=
          rowsOf_of_savedCounters_none (s := { s with envType := req.envType })
            (hs.wellFormed req.envType) hnone
        rw [he, hrows]
        exact List.nil_prefix
      · rw [Function.update_of_ne he]

end Steps

end Server

/-! ### Runs -/

namespace Service

/-- A configuration removes no row, and a row that was just logged is what is loaded. -/
def Persists (o : Options) (s : Service) : ServiceOp → Prop
  | .configure lib req =>
      ∀ envType, rowsOf (s.server.curves envType) <+:
        rowsOf ((s.step o (.configure lib req)).server.curves envType)
  | .infer req =>
      s.loop = .free → s.server.Logs req → (s.step o (.infer req)).server.LoadsCurrent
  | _ => True

/-- The files of the state have consecutive indices and increasing steps. -/
def OrderedCurves (s : Service) : Prop := ∀ envType, Ordered (s.server.curves envType)

/-- A row is only logged when the counters continue the file of the `env_type`. -/
def LogsContinue (s : Service) : ServiceOp → Prop
  | .infer req => s.loop = .free → s.server.Logs req → s.server.Continues
  | _ => True

section Steps

variable {o : Options} {s : Service}

theorem record_onThread (i : ℕ) (raises : Bool) :
    (s.onThread o i raises).server.record = s.server.record := by
  unfold onThread
  split
  · rfl
  · split
    · split
      · rfl
      · rfl
    · rfl
  · rfl

theorem curvesOk_of_record (hs : s.server.CurvesOk) {s' : Service}
    (h : s'.server.record = s.server.record) : s'.server.CurvesOk ∧ s'.OrderedCurves := by
  have hok : s'.server.CurvesOk :=
    hs.congr (congrArg Server.TrainingRecord.curves h) (congrArg Server.TrainingRecord.envType h)
      (congrArg Server.TrainingRecord.csvIndex h)
  exact ⟨hok, fun envType => (hok.wellFormed envType).ordered⟩

theorem curvesOk_infer (hs : s.server.CurvesOk) (req : InferRequest)
    (hl : s.loop = .free → s.server.Logs req → s.server.Continues) :
    (s.step o (.infer req)).server.CurvesOk := by
  simp only [step]
  split
  · next hfree =>
      rw [server_onInfer]
      obtain ⟨hlog, hno⟩ := Server.record_infer o req s.server
      by_cases h : s.server.Logs req
      · exact Server.log_curvesOk hs (hlog h) (hl hfree h)
      · rcases hno h with hr | hr
        · exact hs.congr (congrArg Server.TrainingRecord.curves hr)
            (congrArg Server.TrainingRecord.envType hr) (congrArg Server.TrainingRecord.csvIndex hr)
        · exact hs.congr (congrArg Server.TrainingRecord.curves hr)
            (congrArg Server.TrainingRecord.envType hr) (congrArg Server.TrainingRecord.csvIndex hr)
  · exact hs

/-- **Step lemma.** -/
theorem curvesOk_step (hs : s.server.CurvesOk) (op : ServiceOp) (hl : s.LogsContinue op) :
    (s.step o op).server.CurvesOk := by
  cases op with
  | configure lib req =>
      simp only [step]
      split
      · exact (Server.configure_curves o lib req hs).1
      · exact hs
  | infer req => exact curvesOk_infer hs req hl
  | stopTraining =>
      simp only [step, Server.stopTraining]
      split
      · split
        · exact ⟨hs.wellFormed, hs.csvIndex⟩
        · exact hs
      · exact hs
  | thread i raises => exact (curvesOk_of_record hs (record_onThread i raises)).1
  | answer =>
      simp only [step]
      split
      · exact hs
      · exact hs

/-- Each step persists the training state exactly if its row continues the file. -/
theorem persists_step_iff (hs : s.server.CurvesOk) (op : ServiceOp) :
    (s.Persists o op ∧ (s.step o op).OrderedCurves) ↔ s.LogsContinue op := by
  have hordered : s.LogsContinue op → (s.step o op).OrderedCurves := fun hl envType =>
    ((curvesOk_step hs op hl).wellFormed envType).ordered
  cases op with
  | configure lib req =>
      refine iff_of_true ⟨fun envType => ?_, hordered trivial⟩ trivial
      simp only [step]
      split
      · exact (Server.configure_curves o lib req hs).2 envType
      · exact List.prefix_rfl
  | infer req =>
      by_cases h : s.loop = .free ∧ s.server.Logs req
      · obtain ⟨hfree, hlogs⟩ := h
        have hstep : (s.step o (.infer req)).server = (s.server.infer o req).1 := by
          simp only [step, if_pos hfree]
          exact server_onInfer o req s
        have hgood := Server.log_good_iff hs ((Server.record_infer o req s.server).1 hlogs)
        rw [← hstep] at hgood
        constructor
        · rintro ⟨hload, hord⟩ _ _
          exact hgood.mp ⟨hload hfree hlogs, hord⟩
        · intro hc
          obtain ⟨hload, hord⟩ := hgood.mpr (hc hfree hlogs)
          exact ⟨fun _ _ => hload, hord⟩
      · have hno : s.LogsContinue (.infer req) := fun hfree hlogs => absurd ⟨hfree, hlogs⟩ h
        exact iff_of_true ⟨fun hfree hlogs => absurd ⟨hfree, hlogs⟩ h, hordered hno⟩ hno
  | stopTraining => exact iff_of_true ⟨trivial, hordered trivial⟩ trivial
  | thread i raises => exact iff_of_true ⟨trivial, hordered trivial⟩ trivial
  | answer => exact iff_of_true ⟨trivial, hordered trivial⟩ trivial

end Steps

/-- **Persistence of the training state.** Over a run from well-formed files, a logged row is what
`load_training_state` reads back, the files stay ordered and no configuration removes a row, exactly
if every row is logged to a file with a header that the counters continue. -/
theorem persists_throughout_iff (o : Options) {curves : String → List CurveLine}
    (hcurves : ∀ envType, WellFormed (curves envType)) (ops : List ServiceOp) :
    (Runs.AllSteps (step o) (Persists o) (start curves) ops ∧
      Runs.Throughout (step o) OrderedCurves (start curves) ops) ↔
    Runs.AllSteps (step o) LogsContinue (start curves) ops := by
  have hs : (start curves).server.CurvesOk := ⟨hcurves, fun _ => zero_le_one⟩
  have hord : (start curves).OrderedCurves := fun envType => (hcurves envType).ordered
  have hlegal : Runs.AllSteps (step o) (fun _ _ => True) (start curves) ops :=
    Runs.allSteps_of_forall (fun _ _ => trivial) _ ops
  rw [Runs.throughout_iff, and_iff_right hord, Runs.allSteps_and]
  exact Runs.allSteps_iff (fun s => s.server.CurvesOk) (fun s op hs _ => persists_step_iff hs op)
    (fun s op hs _ hl => curvesOk_step hs op hl) hs hlegal

/-- A report of four UEs. -/
def fourUes : InferRequest := ⟨[1, 1, 1, 1], [0, 0, 0, 0], [0, 0, 0, 0], [0, 0, 0, 0], .fin 0⟩

theorem persists_throughout_iff_header :
    Runs.AllSteps (step {}) (Persists {}) (start fun _ => [.other]) [.infer fourUes] ∧
      Runs.Throughout (step {}) OrderedCurves (start fun _ => [.other]) [.infer fourUes] :=
  (persists_throughout_iff {} (fun _ => WellFormed.header) _).mpr ⟨fun _ _ => trivial, trivial⟩

/-- Without files, a request before the first configuration logs the row 1, 1 without a header: it is
not loaded. -/
theorem not_persists_before_configure :
    ¬ (Runs.AllSteps (step {}) (Persists {}) (start fun _ => []) [.infer fourUes] ∧
      Runs.Throughout (step {}) OrderedCurves (start fun _ => []) [.infer fourUes]) := by
  rintro ⟨⟨h, -⟩, -⟩
  have hlogs : (start fun _ => []).server.Logs fourUes := by
    unfold Server.Logs
    decide +kernel
  have hload := h rfl hlogs
  revert hload
  unfold Server.LoadsCurrent
  decide +kernel

end Service

end Rbis
