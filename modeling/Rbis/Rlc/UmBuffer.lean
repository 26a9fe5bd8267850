import Mathlib.Algebra.BigOperators.Group.List.Basic
import Mathlib.Algebra.GroupWithZero.Nat
import Rbis.Rlc.UmTransmit

/-! # The transmission buffer over a run

`m_txBufferSize` is the size of the SDUs in the buffer as long as no sum of sizes wraps.  An SDU is
dropped or stored as long as none is accepted behind an expired head, which is reported as dropped
and stored all the same. -/

namespace Rbis

/-- The total size of the buffered SDUs. -/
def bufferedBytes (buffer : List TxPdu) : ℕ := (buffer.map fun t => t.pdu.size.toNat).sum

@[simp] theorem bufferedBytes_nil : bufferedBytes [] = 0 := rfl

@[simp] theorem bufferedBytes_cons (t : TxPdu) (buffer : List TxPdu) :
    bufferedBytes (t :: buffer) = t.pdu.size.toNat + bufferedBytes buffer := rfl

theorem bufferedBytes_concat (buffer : List TxPdu) (t : TxPdu) :
    bufferedBytes (buffer ++ [t]) = bufferedBytes buffer + t.pdu.size.toNat := by
  simp [bufferedBytes]

namespace TxFill

/-- The counter is the size of the buffer, and this is at most `bound`. -/
structure Counts (f : TxFill) (bound : ℕ) : Prop where
  size : f.txBufferSize.toNat = bufferedBytes f.txBuffer
  le : bufferedBytes f.txBuffer ≤ bound

theorem toNat_sub_head {size : UInt32} {t : TxPdu} {buffer : List TxPdu}
    (h : size.toNat = bufferedBytes (t :: buffer)) :
    (size - t.pdu.size).toNat = bufferedBytes buffer := by
  rw [bufferedBytes_cons] at h
  have hle : t.pdu.size ≤ size := by
    rw [UInt32.le_iff_toNat_le]
    omega
  rw [UInt32.toNat_sub_of_le _ _ hle]
  omega

theorem takeSegment_counts {f : TxFill} {first : TxPdu} {n : UInt32}
    (hsize : f.txBufferSize.toNat = bufferedBytes f.txBuffer)
    (hbound : first.pdu.size.toNat + bufferedBytes f.txBuffer < 2 ^ 32) :
    (f.takeSegment first n).Counts (first.pdu.size.toNat + bufferedBytes f.txBuffer) := by
  unfold takeSegment
  dsimp only
  have hcurr : (if n < first.pdu.size then n else first.pdu.size) ≤ first.pdu.size := by
    split
    · next h => exact UInt32.le_of_lt h
    · exact UInt32.le_refl _
  generalize (if n < first.pdu.size then n else first.pdu.size) = curr at hcurr
  have hrest := UInt32.toNat_sub_of_le _ _ hcurr
  split
  · refine ⟨?_, ?_⟩
    · rw [UInt32.toNat_add, hrest, hsize, bufferedBytes_cons, hrest, Nat.mod_eq_of_lt (by omega)]
      omega
    · rw [bufferedBytes_cons, hrest]
      omega
  · exact ⟨hsize, Nat.le_add_left _ _⟩

/-- The loop keeps the counter right; the buffer does not grow. -/
theorem fill_counts {buffer : List TxPdu} : ∀ (first : TxPdu) (n : UInt32) (id : ℕ)
    {size : UInt32} (d : DataField), size.toNat = bufferedBytes buffer →
    first.pdu.size.toNat + bufferedBytes buffer < 2 ^ 32 →
    (fill first n id size d buffer).Counts (first.pdu.size.toNat + bufferedBytes buffer) := by
  induction buffer with
  | nil =>
      intro first n id size d hsize hbound
      rw [fill]
      split
      · exact ⟨hsize, Nat.le_add_left _ _⟩
      · split
        · exact takeSegment_counts (f := ⟨[], size, d⟩) hsize hbound
        · split <;> exact ⟨hsize, Nat.le_add_left _ _⟩
  | cons next rest ih =>
      intro first n id size d hsize hbound
      rw [fill]
      split
      · exact ⟨hsize, Nat.le_add_left _ _⟩
      · split
        · exact takeSegment_counts (f := ⟨next :: rest, size, d⟩) hsize hbound
        · split
          · exact ⟨hsize, Nat.le_add_left _ _⟩
          · rw [bufferedBytes_cons] at hbound
            obtain ⟨h1, h2⟩ := ih next _ _ _ (toNat_sub_head hsize) (by omega)
            refine ⟨h1, ?_⟩
            rw [bufferedBytes_cons]
            omega

end TxFill

namespace NrRlcUm

/-- The counter is the size of the buffer, and this is at most the maximum. -/
structure SizeOk (s : NrRlcUm) : Prop where
  size : s.txBufferSize.toNat = bufferedBytes s.txBuffer
  le : bufferedBytes s.txBuffer ≤ s.maxTxBufferSize.toNat

/-- The calls of a run. -/
inductive UmCall where
  | transmitPdcpPdu (p : Packet) (now : ℤ)
  | notifyTxOpportunity (bytes : UInt32)
  | expireBsrTimer (now : ℤ)

section Calls

variable (s : NrRlcUm)

def call : UmCall → NrRlcUm × List UmEvent
  | .transmitPdcpPdu p now => s.doTransmitPdcpPdu p now
  | .notifyTxOpportunity bytes => s.doNotifyTxOpportunity bytes
  | .expireBsrTimer now => s.doExpireBsrTimer now

/-- The state after a call. -/
def next (c : UmCall) : NrRlcUm := (s.call c).1

/-- An SDU handed over is reported on the drop trace, and the buffer stays as it is, or it is stored
at the end of the buffer and not reported. -/
def AcceptXorDrop : UmCall → Prop
  | .transmitPdcpPdu p now =>
      let r := s.doTransmitPdcpPdu p now
      (.txDrop p ∈ r.2 ∧ r.1.txBuffer = s.txBuffer) ∨
        (.txDrop p ∉ r.2 ∧ r.1.txBuffer = s.txBuffer ++ [⟨p, .fullSdu, now⟩])
  | _ => True

/-- An SDU that the size test lets through does not wrap the counter, and the head of the buffer has
not expired. -/
def CleanAccept : UmCall → Prop
  | .transmitPdcpPdu p now =>
      s.Fits p → s.txBufferSize.toNat + p.size.toNat < 2 ^ 32 ∧ ¬ s.HeadExpired now
  | _ => True

theorem next_notifyTxOpportunity_sizeOk (h : s.SizeOk) (bytes : UInt32) :
    (s.next (.notifyTxOpportunity bytes)).SizeOk := by
  show (s.doNotifyTxOpportunity bytes).1.SizeOk
  unfold doNotifyTxOpportunity
  split
  · exact h
  · split
    · exact h
    · next first buffer hbuf =>
        obtain ⟨hsize, hle⟩ := h
        rw [hbuf] at hsize hle
        have hmax := s.maxTxBufferSize.toNat_lt
        have hbound : first.pdu.size.toNat + bufferedBytes buffer < 2 ^ 32 := by
          rw [bufferedBytes_cons] at hle
          omega
        obtain ⟨h1, h2⟩ := TxFill.fill_counts first (bytes - 2) 1 {}
          (TxFill.toNat_sub_head hsize) hbound
        exact ⟨h1, Nat.le_trans h2 hle⟩

theorem doTransmitPdcpPdu_of_fits {p : Packet} (hf : s.Fits p) (now : ℤ) :
    (s.doTransmitPdcpPdu p now).1.txBuffer = s.txBuffer ++ [⟨p, .fullSdu, now⟩] ∧
      (s.doTransmitPdcpPdu p now).1.txBufferSize = s.txBufferSize + p.size ∧
      (s.doTransmitPdcpPdu p now).1.maxTxBufferSize = s.maxTxBufferSize ∧
      (.txDrop p ∈ (s.doTransmitPdcpPdu p now).2 ↔ s.HeadExpired now) := by
  rw [doTransmitPdcpPdu, if_pos hf]
  refine ⟨rfl, rfl, rfl, ?_⟩
  by_cases he : s.HeadExpired now
  · simp [he]
  · simp [he, doTransmitBufferStatusReport]

theorem doTransmitPdcpPdu_of_not_fits {p : Packet} (hf : ¬ s.Fits p) (now : ℤ) :
    (s.doTransmitPdcpPdu p now).1.txBuffer = s.txBuffer ∧
      (s.doTransmitPdcpPdu p now).1.txBufferSize = s.txBufferSize ∧
      (s.doTransmitPdcpPdu p now).1.maxTxBufferSize = s.maxTxBufferSize ∧
      .txDrop p ∈ (s.doTransmitPdcpPdu p now).2 := by
  rw [doTransmitPdcpPdu, if_neg hf]
  exact ⟨rfl, rfl, rfl, List.mem_cons_self⟩

theorem sizeOk_store_iff {s' : NrRlcUm} {p : Packet} {now : ℤ} (h : s.SizeOk) (hf : s.Fits p)
    (hbuf : s'.txBuffer = s.txBuffer ++ [⟨p, .fullSdu, now⟩])
    (hsize : s'.txBufferSize = s.txBufferSize + p.size)
    (hmax : s'.maxTxBufferSize = s.maxTxBufferSize) :
    s'.SizeOk ↔ s.txBufferSize.toNat + p.size.toNat < 2 ^ 32 := by
  have hbytes : bufferedBytes s'.txBuffer = s.txBufferSize.toNat + p.size.toNat := by
    rw [hbuf, bufferedBytes_concat, h.size]
  have hwrap : s'.txBufferSize.toNat = (s.txBufferSize.toNat + p.size.toNat) % 2 ^ 32 := by
    rw [hsize, UInt32.toNat_add]
  have hfits : (s.txBufferSize.toNat + p.size.toNat) % 2 ^ 32 ≤ s.maxTxBufferSize.toNat := by
    rw [← UInt32.toNat_add]
    exact UInt32.le_iff_toNat_le.mp hf
  constructor
  · rintro ⟨h1, -⟩
    rw [hbytes, hwrap] at h1
    exact Nat.mod_eq_iff_lt (by decide) |>.mp h1
  · intro hlt
    rw [Nat.mod_eq_of_lt hlt] at hwrap hfits
    exact ⟨by rw [hbytes, hwrap], by rw [hbytes, hmax]; exact hfits⟩

/-- From a state with a right counter, an SDU is handled right exactly if it is accepted cleanly. -/
theorem acceptXorDrop_and_sizeOk_iff (h : s.SizeOk) (c : UmCall) :
    (s.AcceptXorDrop c ∧ (s.next c).SizeOk) ↔ s.CleanAccept c := by
  cases c with
  | transmitPdcpPdu p now =>
      by_cases hf : s.Fits p
      · obtain ⟨hbuf, hsize, hmax, hdrop⟩ := s.doTransmitPdcpPdu_of_fits hf now
        have hne : s.txBuffer ++ [⟨p, .fullSdu, now⟩] ≠ s.txBuffer := by simp
        have hxor : s.AcceptXorDrop (.transmitPdcpPdu p now) ↔ ¬ s.HeadExpired now := by
          simp only [AcceptXorDrop, hbuf, hdrop, hne, and_false, false_or, and_true]
        have hcount : (s.next (.transmitPdcpPdu p now)).SizeOk ↔
            s.txBufferSize.toNat + p.size.toNat < 2 ^ 32 :=
          s.sizeOk_store_iff h hf hbuf hsize hmax
        rw [hxor, hcount, and_comm]
        exact ⟨fun hc _ => hc, fun hc => hc hf⟩
      · obtain ⟨hbuf, hsize, hmax, hdrop⟩ := s.doTransmitPdcpPdu_of_not_fits hf now
        refine iff_of_true ⟨Or.inl ⟨hdrop, hbuf⟩, ?_⟩ fun hc => absurd hc hf
        show (s.doTransmitPdcpPdu p now).1.SizeOk
        exact ⟨by rw [hsize, hbuf]; exact h.size, by rw [hbuf, hmax]; exact h.le⟩
  | notifyTxOpportunity bytes =>
      exact iff_of_true ⟨trivial, s.next_notifyTxOpportunity_sizeOk h bytes⟩ trivial
  | expireBsrTimer now =>
      refine iff_of_true ⟨trivial, ?_⟩ trivial
      show (s.doExpireBsrTimer now).1.SizeOk
      unfold doExpireBsrTimer
      split <;> exact ⟨h.size, h.le⟩

end Calls

/-- **Accept or drop, and the size of the buffer.** In a run from an empty buffer every SDU is
reported as dropped or stored, and not both, and the counter is the size of the buffer and at most
the maximum in every state, exactly if every SDU that passes the size test is accepted cleanly. -/
theorem acceptXorDrop_throughout_iff {s : NrRlcUm} (hempty : s.txBuffer = [])
    (hzero : s.txBufferSize = 0) (calls : List UmCall) :
    (Runs.AllSteps next AcceptXorDrop s calls ∧ Runs.Throughout next SizeOk s calls) ↔
      Runs.AllSteps next CleanAccept s calls := by
  have hs : s.SizeOk := by
    constructor
    · rw [hempty, hzero]
      rfl
    · rw [hempty]
      exact Nat.zero_le _
  have hlegal : Runs.AllSteps next (fun _ _ => True) s calls :=
    Runs.allSteps_of_forall (fun _ _ => trivial) s calls
  rw [Runs.throughout_iff, and_iff_right hs, Runs.allSteps_and]
  apply Runs.allSteps_iff SizeOk (fun s c h _ => s.acceptXorDrop_and_sizeOk_iff h c) _ hs hlegal
  intro s c h _ hc
  exact ((s.acceptXorDrop_and_sizeOk_iff h c).mpr hc).2

/-- The entity with the default attributes and a delay budget of 100 ms. -/
def default100 : NrRlcUm where
  maxTxBufferSize := 10240
  enablePdcpDiscarding := true
  discardTimerMs := 0
  packetDelayBudgetMs := 100

theorem acceptXorDrop_throughout_iff_default :
    Runs.AllSteps next AcceptXorDrop default100 [.transmitPdcpPdu ⟨0, 100⟩ 0] ∧
      Runs.Throughout next SizeOk default100 [.transmitPdcpPdu ⟨0, 100⟩ 0] := by
  refine (acceptXorDrop_throughout_iff rfl rfl _).mpr ⟨?_, trivial⟩
  unfold CleanAccept
  decide +kernel

/-- The second SDU comes 200 ms after the first one: it is reported as dropped and stored. -/
theorem not_acceptXorDrop_expired :
    ¬ (Runs.AllSteps next AcceptXorDrop default100
        [.transmitPdcpPdu ⟨0, 100⟩ 0, .transmitPdcpPdu ⟨1, 100⟩ 200000000] ∧
      Runs.Throughout next SizeOk default100
        [.transmitPdcpPdu ⟨0, 100⟩ 0, .transmitPdcpPdu ⟨1, 100⟩ 200000000]) := by
  rintro ⟨⟨-, h, -⟩, -⟩
  revert h
  unfold AcceptXorDrop
  decide +kernel

end NrRlcUm

end Rbis
