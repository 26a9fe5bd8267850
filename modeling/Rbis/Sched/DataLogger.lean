import Mathlib.Data.Int.Notation
import Rbis.Lib.Runs

/-! # The data logger

`SimulationDataLogger` collects entries in three vectors and appends them to three files.  A call
of `LogQueueQ` can save all three vectors; it then clears two of them.  The third one, of the RBG
allocations, is written again by the next save.

A file is the list of its lines, each ended by a newline.  The digits in which a line renders the
numbers of its entry are those of the stream; files are opened without failure. -/

namespace Rbis

structure QueueEntry where
  ueId : ℕ
  queueSize : ℕ
  time : ℤ
deriving DecidableEq

structure RBGAllocationEntry where
  ueId : ℕ
  resources : ℕ
  mcs : ℕ
  time : ℤ
deriving DecidableEq

/-! ### Files -/

inductive LogLine (α : Type) where
  /-- A header, or a line of whoever wrote the file before. -/
  | text (s : String)
  | entry (e : α)
deriving DecidableEq

namespace LogLine

variable {α : Type}

def entry? : LogLine α → Option α
  | .text _ => none
  | .entry e => some e

end LogLine

abbrev LogFile (α : Type) := List (LogLine α)

namespace LogFile

variable {α : Type} (header : String) (file : LogFile α)

/-- What `SaveToFiles` does to one file: a header if it is empty, then the entries. -/
def save (entries : List α) : LogFile α :=
  (if file.isEmpty then [.text header] else file) ++ entries.map .entry

/-- The lines added to `file` hold these entries, once each and in this order. -/
def Added (file' : LogFile α) (entries : List α) : Prop :=
  ∃ lines, file' = file ++ lines ∧ lines.filterMap LogLine.entry? = entries

theorem save_save (es es' : List α) :
    save header (save header file es) es' = save header file (es ++ es') := by
  have hne : (save header file es).isEmpty = false := by
    unfold save
    cases file <;> rfl
  rw [save, hne]
  simp [save, List.append_assoc]

theorem filterMap_entry (es : List α) : (es.map LogLine.entry).filterMap LogLine.entry? = es := by
  rw [List.filterMap_map]
  exact List.filterMap_some

theorem added_save_iff {es entries : List α} :
    Added file (save header file es) entries ↔ entries = es := by
  have hadded : ∃ lines, save header file es = file ++ lines ∧
      lines.filterMap LogLine.entry? = es := by
    cases file with
    | nil => exact ⟨_, rfl, filterMap_entry es⟩
    | cons l file => exact ⟨_, rfl, filterMap_entry es⟩
  constructor
  · rintro ⟨lines, he, rfl⟩
    obtain ⟨lines', he', hes⟩ := hadded
    rw [← hes, List.append_cancel_left (he.symm.trans he')]
  · rintro rfl
    exact hadded

end LogFile

/-! ### The logger -/

/-- The vectors of the logger and the files `queue_q.txt`, `queue_g.txt` and `alpha.txt`. -/
structure SimulationDataLogger where
  queueQEntries : List QueueEntry := []
  queueGEntries : List QueueEntry := []
  rbgAllocationEntries : List RBGAllocationEntry := []
  qFile : LogFile QueueEntry
  gFile : LogFile QueueEntry
  alphaFile : LogFile RBGAllocationEntry

/-- A logging call with its arguments. -/
inductive LogCall where
  | queueQ (e : QueueEntry)
  | queueG (e : QueueEntry)
  | rbgAllocation (e : RBGAllocationEntry)

namespace SimulationDataLogger

def qHeader : String := "time\tue\tq"
def gHeader : String := "time\tue\tg"
def alphaHeader : String := "time\tue\tresources\tmcs"

variable (s : SimulationDataLogger)

def saveToFiles : SimulationDataLogger :=
  { s with
    qFile := s.qFile.save qHeader s.queueQEntries
    gFile := s.gFile.save gHeader s.queueGEntries
    alphaFile := s.alphaFile.save alphaHeader s.rbgAllocationEntries }

def logQueueQ (e : QueueEntry) : SimulationDataLogger :=
  let s := { s with queueQEntries := s.queueQEntries ++ [e] }
  if e.ueId = 1 ∧ 1000 < s.queueQEntries.length then
    { s.saveToFiles with queueQEntries := [], queueGEntries := [] }
  else s

def logQueueG (e : QueueEntry) : SimulationDataLogger :=
  { s with queueGEntries := s.queueGEntries ++ [e] }

def logRBGAllocation (e : RBGAllocationEntry) : SimulationDataLogger :=
  { s with rbgAllocationEntries := s.rbgAllocationEntries ++ [e] }

def log : LogCall → SimulationDataLogger
  | .queueQ e => s.logQueueQ e
  | .queueG e => s.logQueueG e
  | .rbgAllocation e => s.logRBGAllocation e

/-- The call saves the vectors. -/
def Saves : LogCall → Prop
  | .queueQ e => e.ueId = 1 ∧ 1000 ≤ s.queueQEntries.length
  | _ => False

instance (c : LogCall) : Decidable (s.Saves c) :=
  match c with
  | .queueQ e => inferInstanceAs (Decidable (e.ueId = 1 ∧ 1000 ≤ s.queueQEntries.length))
  | .queueG _ => inferInstanceAs (Decidable False)
  | .rbgAllocation _ => inferInstanceAs (Decidable False)

/-- The files after the calls and the final save. -/
def saved (calls : List LogCall) : SimulationDataLogger := (Runs.exec log s calls).saveToFiles

end SimulationDataLogger

/-! ### What the calls log -/

def loggedQ (calls : List LogCall) : List QueueEntry :=
  calls.filterMap fun | .queueQ e => some e | _ => none

def loggedG (calls : List LogCall) : List QueueEntry :=
  calls.filterMap fun | .queueG e => some e | _ => none

def loggedRBG (calls : List LogCall) : List RBGAllocationEntry :=
  calls.filterMap fun | .rbgAllocation e => some e | _ => none

namespace SimulationDataLogger

/-- Every file has each of its logged entries once, in the order of the calls, after what it held
before. -/
structure ExactlyOnce (s : SimulationDataLogger) (calls : List LogCall) : Prop where
  q : s.qFile.Added (s.saved calls).qFile (loggedQ calls)
  g : s.gFile.Added (s.saved calls).gFile (loggedG calls)
  alpha : s.alphaFile.Added (s.saved calls).alphaFile (loggedRBG calls)

section Files

variable (s : SimulationDataLogger) (calls : List LogCall)

theorem logQueueQ_of_saves {e : QueueEntry} (h : s.Saves (.queueQ e)) :
    s.logQueueQ e =
      { s with
        queueQEntries := []
        queueGEntries := []
        qFile := s.qFile.save qHeader (s.queueQEntries ++ [e])
        gFile := s.gFile.save gHeader s.queueGEntries
        alphaFile := s.alphaFile.save alphaHeader s.rbgAllocationEntries } := by
  have hlen : 1000 < (s.queueQEntries ++ [e]).length := by
    rw [List.length_append, List.length_singleton]
    exact Nat.lt_succ_of_le h.2
  exact if_pos ⟨h.1, hlen⟩

theorem logQueueQ_of_not_saves {e : QueueEntry} (h : ¬ s.Saves (.queueQ e)) :
    s.logQueueQ e = { s with queueQEntries := s.queueQEntries ++ [e] } := by
  apply if_neg
  rintro ⟨hue, hlen⟩
  rw [List.length_append, List.length_singleton] at hlen
  exact h ⟨hue, Nat.le_of_lt_succ hlen⟩

theorem qFile_saved :
    (s.saved calls).qFile = s.qFile.save qHeader (s.queueQEntries ++ loggedQ calls) := by
  induction calls generalizing s with
  | nil => exact congrArg (s.qFile.save qHeader) (List.append_nil _).symm
  | cons c calls ih =>
      refine (ih (s.log c)).trans ?_
      cases c with
      | queueQ e =>
          by_cases h : s.Saves (.queueQ e)
          · rw [log, s.logQueueQ_of_saves h]
            simp [loggedQ, LogFile.save_save]
          · rw [log, s.logQueueQ_of_not_saves h]
            simp [loggedQ]
      | queueG e => rfl
      | rbgAllocation e => rfl

theorem gFile_saved :
    (s.saved calls).gFile = s.gFile.save gHeader (s.queueGEntries ++ loggedG calls) := by
  induction calls generalizing s with
  | nil => exact congrArg (s.gFile.save gHeader) (List.append_nil _).symm
  | cons c calls ih =>
      refine (ih (s.log c)).trans ?_
      cases c with
      | queueQ e =>
          by_cases h : s.Saves (.queueQ e)
          · rw [log, s.logQueueQ_of_saves h]
            simp [loggedG, LogFile.save_save]
          · rw [log, s.logQueueQ_of_not_saves h]
            simp [loggedG]
      | queueG e => simp [log, logQueueG, loggedG]
      | rbgAllocation e => rfl

/-- What the saves among the calls write to `alpha.txt`: the vector is kept, so the final save
writes all of it once more. -/
def rewritten : SimulationDataLogger → List LogCall → List RBGAllocationEntry
  | _, [] => []
  | s, c :: calls =>
      (if s.Saves c then s.rbgAllocationEntries else []) ++ rewritten (s.log c) calls

theorem alphaFile_saved :
    (s.saved calls).alphaFile = s.alphaFile.save alphaHeader
      (s.rewritten calls ++ (s.rbgAllocationEntries ++ loggedRBG calls)) := by
  induction calls generalizing s with
  | nil => exact congrArg (s.alphaFile.save alphaHeader) (List.append_nil _).symm
  | cons c calls ih =>
      refine (ih (s.log c)).trans ?_
      rw [rewritten]
      cases c with
      | queueQ e =>
          by_cases h : s.Saves (.queueQ e)
          · rw [if_pos h, log, s.logQueueQ_of_saves h]
            simp [loggedRBG, LogFile.save_save]
          · rw [if_neg h, log, s.logQueueQ_of_not_saves h]
            simp [loggedRBG]
      | queueG e => rfl
      | rbgAllocation e =>
          have hno : ¬ s.Saves (.rbgAllocation e) := not_false
          rw [if_neg hno]
          simp [log, logRBGAllocation, loggedRBG]

theorem rewritten_eq_nil_iff :
    s.rewritten calls = [] ↔
      Runs.AllSteps log (fun s c => s.Saves c → s.rbgAllocationEntries = []) s calls := by
  induction calls generalizing s with
  | nil => exact iff_of_true rfl trivial
  | cons c calls ih =>
      rw [rewritten, List.append_eq_nil_iff, ih, Runs.AllSteps]
      refine and_congr_left fun _ => ?_
      by_cases h : s.Saves c
      · rw [if_pos h]
        exact ⟨fun hnil _ => hnil, fun hnil => hnil h⟩
      · rw [if_neg h]
        exact iff_of_true rfl fun hs => absurd hs h

end Files

/-- The logger when the simulation starts, with the files it finds. -/
def start (qFile gFile : LogFile QueueEntry) (alphaFile : LogFile RBGAllocationEntry) :
    SimulationDataLogger where
  qFile := qFile
  gFile := gFile
  alphaFile := alphaFile

section Start

variable (qFile gFile : LogFile QueueEntry) (alphaFile : LogFile RBGAllocationEntry)
  (calls : List LogCall)

theorem exactlyOnce_start :
    (start qFile gFile alphaFile).ExactlyOnce calls ↔
      (start qFile gFile alphaFile).rewritten calls = [] := by
  have halpha : (start qFile gFile alphaFile).alphaFile.Added
      ((start qFile gFile alphaFile).saved calls).alphaFile (loggedRBG calls) ↔
      (start qFile gFile alphaFile).rewritten calls = [] := by
    rw [alphaFile_saved, LogFile.added_save_iff]
    exact List.self_eq_append_left
  rw [← halpha]
  refine ⟨ExactlyOnce.alpha, fun h => ⟨?_, ?_, h⟩⟩
  · rw [qFile_saved, LogFile.added_save_iff]
    rfl
  · rw [gFile_saved, LogFile.added_save_iff]
    rfl

/-- **Every entry once.** After the final save each file holds each of its logged entries once and
in order, exactly if no call of `LogQueueQ` saved the vectors when an RBG allocation was logged
before. -/
theorem exactlyOnce_iff :
    (start qFile gFile alphaFile).ExactlyOnce calls ↔
      Runs.AllSteps log (fun s c => s.Saves c → s.rbgAllocationEntries = [])
        (start qFile gFile alphaFile) calls := by
  rw [exactlyOnce_start, rewritten_eq_nil_iff]

end Start

/-- One RBG allocation, then a thousand and one entries of the queue: the last one saves the
vectors, and the allocation is in `alpha.txt` twice. -/
theorem not_exactlyOnce_flushed :
    ¬ (start [] [] []).ExactlyOnce
      (.rbgAllocation ⟨1, 4, 20, 0⟩ :: List.replicate 1000 (.queueQ ⟨2, 100, 0⟩) ++
        [.queueQ ⟨1, 100, 0⟩]) := by
  rw [exactlyOnce_start]
  decide +kernel

end SimulationDataLogger

end Rbis
