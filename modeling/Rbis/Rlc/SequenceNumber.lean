import Mathlib.Data.Int.Notation
import Rbis.Rlc.RlcHeader

/-! # Sequence numbers of ten bits

`SequenceNumber10` compares numbers relative to a modulus base, in the `int` arithmetic of the
source, whose remainder may be negative before it becomes a `uint16_t`.  Numbers that count PDUs
without a bound, and lie within 512 of the number behind the base, are compared as they count
(`Names.lt`, `Names.gt`, `Names.le`). -/

namespace Rbis

structure SequenceNumber10 where
  value : ℕ := 0
  modulusBase : ℕ := 0
deriving DecidableEq

namespace SequenceNumber10

def ofValue (value : ℕ) : SequenceNumber10 := ⟨value % 1024, 0⟩

/-- The assignment of a `uint16_t`, which keeps the modulus base. -/
def assign (s : SequenceNumber10) (value : ℕ) : SequenceNumber10 := { s with value := value % 1024 }

def setModulusBase (s base : SequenceNumber10) : SequenceNumber10 :=
  { s with modulusBase := base.value }

/-- `operator++`. -/
def increment (s : SequenceNumber10) : SequenceNumber10 := { s with value := (s.value + 1) % 1024 }

/-- An `int` as a `uint16_t`. -/
def toUint16 (i : ℤ) : ℕ := (i % 65536).toNat

def add (s : SequenceNumber10) (delta : ℕ) : SequenceNumber10 :=
  { ofValue ((s.value + delta) % 1024) with modulusBase := s.modulusBase }

def sub (s : SequenceNumber10) (delta : ℕ) : SequenceNumber10 :=
  { ofValue (toUint16 (((s.value : ℤ) - delta).tmod 1024)) with modulusBase := s.modulusBase }

/-- `(m_value - m_modulusBase) % 1024` as a `uint16_t`. -/
def offset (s : SequenceNumber10) : ℕ := toUint16 (((s.value : ℤ) - s.modulusBase).tmod 1024)

/-- `operator>`. -/
def gt (s other : SequenceNumber10) : Except RlcFault Bool :=
  if s.modulusBase = other.modulusBase then .ok (decide (other.offset < s.offset))
  else .error .modulusBase

/-- `operator<=`. -/
def le (s other : SequenceNumber10) : Except RlcFault Bool := do
  let g ← s.gt other
  pure !g

/-- `operator<`. -/
def lt (s other : SequenceNumber10) : Except RlcFault Bool := do
  let g ← s.gt other
  pure (!g && decide (s.value ≠ other.value))

/-! ### Numbers without a bound -/

theorem tmod_of_lt {i : ℤ} (h : -1024 < i) (h' : i < 1024) : i.tmod 1024 = i := by
  obtain ⟨n, rfl | rfl⟩ := i.eq_nat_or_neg
  · exact Int.tmod_eq_of_lt (by omega) h'
  · rw [Int.neg_tmod, Int.tmod_eq_of_lt (by omega) (by omega)]

/-- The sequence number of the PDU number `x`, under the modulus base behind the PDU number `h`. -/
structure Names (s : SequenceNumber10) (h x : ℕ) : Prop where
  value : s.value = x % 1024
  modulusBase : s.modulusBase = (h + 512) % 1024

/-- The numbers within 512 of `h`. -/
def Near (h x : ℕ) : Prop := h ≤ x + 512 ∧ x < h + 512

section Names

variable {s t : SequenceNumber10} {h x y : ℕ}

theorem Names.offset (hs : s.Names h x) : s.offset =
    if (h + 512) % 1024 ≤ x % 1024 then x % 1024 - (h + 512) % 1024
    else 65536 + x % 1024 - (h + 512) % 1024 := by
  rw [SequenceNumber10.offset, toUint16, hs.value, hs.modulusBase,
    tmod_of_lt (by omega) (by omega)]
  split <;> omega

theorem Names.offset_lt_iff (hs : s.Names h x) (ht : t.Names h y) (hx : Near h x)
    (hy : Near h y) : t.offset < s.offset ↔ y < x := by
  unfold Near at hx hy
  rw [hs.offset, ht.offset]
  split <;> split <;> omega

theorem Names.gt (hs : s.Names h x) (ht : t.Names h y) (hx : Near h x) (hy : Near h y) :
    s.gt t = .ok (decide (y < x)) := by
  rw [SequenceNumber10.gt, if_pos (hs.modulusBase.trans ht.modulusBase.symm)]
  simp only [hs.offset_lt_iff ht hx hy]

theorem Names.le (hs : s.Names h x) (ht : t.Names h y) (hx : Near h x) (hy : Near h y) :
    s.le t = .ok (decide (x ≤ y)) := by
  rw [SequenceNumber10.le, hs.gt ht hx hy, Fallible.ok_bind, Fallible.pure_eq]
  congr 1
  rw [Bool.eq_iff_iff]
  simp

theorem Names.value_ne_iff (hs : s.Names h x) (ht : t.Names h y) (hx : Near h x)
    (hy : Near h y) : s.value ≠ t.value ↔ x ≠ y := by
  unfold Near at hx hy
  rw [hs.value, ht.value]
  omega

theorem Names.lt (hs : s.Names h x) (ht : t.Names h y) (hx : Near h x) (hy : Near h y) :
    s.lt t = .ok (decide (x < y)) := by
  have hne := hs.value_ne_iff ht hx hy
  rw [SequenceNumber10.lt, hs.gt ht hx hy, Fallible.ok_bind, Fallible.pure_eq]
  congr 1
  rw [Bool.eq_iff_iff]
  simp only [Bool.and_eq_true, Bool.not_eq_true', decide_eq_false_iff_not, decide_eq_true_eq, hne]
  omega

theorem le_of_base (hs : s.value = (h + 512) % 1024) (hb : s.modulusBase = (h + 512) % 1024)
    (ht : t.Names h y) : s.le t = .ok true := by
  have h0 : s.offset = 0 := by
    rw [SequenceNumber10.offset, toUint16, hs, hb, Int.sub_self]
    rfl
  rw [SequenceNumber10.le, SequenceNumber10.gt, if_pos (hb.trans ht.modulusBase.symm), h0]
  rfl

theorem sub_value (hs : s.value = x % 1024) : (s.sub 512).value = (x + 512) % 1024 := by
  show toUint16 _ % 1024 = _
  rw [toUint16, hs, tmod_of_lt (by omega) (by omega)]
  omega

theorem add_value (hs : s.value = x % 1024) : (s.add 1).value = (x + 1) % 1024 := by
  show (s.value + 1) % 1024 % 1024 = _
  rw [hs]
  omega

theorem increment_value (hs : s.value = x % 1024) : s.increment.value = (x + 1) % 1024 := by
  show (s.value + 1) % 1024 = _
  rw [hs]
  omega

end Names

end SequenceNumber10

end Rbis
