import Rbis.Lib.Cuts
import Rbis.Rlc.RlcHeader
import Rbis.Rlc.UmBuffer

/-! # The bytes of the transmitting side

The transmitting side of the RLC UM entity with the bytes of its SDUs.  Without the bytes it is the
entity of the buffer sizes (`Mirrors.notify`, `Mirrors.transmit`).  The buffer is what follows a cut in
the sequence of accepted SDUs, and a PDU carries what lies between two cuts, under a header with
the lengths of its segments, in at most the bytes of the opportunity (`Queued.notify`). -/

namespace Rbis

/-- An SDU, or what is left of one, with its bytes. -/
structure TxSdu where
  uid : ℕ
  bytes : List UInt8
  status : SduStatus
  waitingSince : ℤ
deriving DecidableEq

namespace TxSdu

def size (t : TxSdu) : ℕ := t.bytes.length

/-- The SDU without its bytes. -/
def sized (t : TxSdu) : TxPdu := ⟨⟨t.uid, UInt32.ofNat t.size⟩, t.status, t.waitingSince⟩

end TxSdu

/-- The data field under construction and its part of the header. -/
structure ByteField where
  segments : List TxSdu := []
  extensionBits : List ℕ := []
  lengthIndicators : List UInt16 := []

namespace ByteField

/-- `DATA_FIELD_FOLLOWS`. -/
def pushLast (d : ByteField) (seg : TxSdu) : ByteField :=
  { d with segments := d.segments ++ [seg], extensionBits := d.extensionBits ++ [0] }

/-- `E_LI_FIELDS_FOLLOWS`. -/
def pushNext (d : ByteField) (seg : TxSdu) : ByteField where
  segments := d.segments ++ [seg]
  extensionBits := d.extensionBits ++ [1]
  lengthIndicators := d.lengthIndicators ++ [UInt16.ofNat seg.size]

def sized (d : ByteField) : DataField :=
  ⟨d.segments.map TxSdu.sized, d.extensionBits, d.lengthIndicators⟩

end ByteField

structure ByteFill where
  txBuffer : List TxSdu
  txBufferSize : UInt32
  dataField : ByteField

namespace ByteFill

def sized (f : ByteFill) : TxFill :=
  ⟨f.txBuffer.map TxSdu.sized, f.txBufferSize, f.dataField.sized⟩

/-- The segment that fills the data field, by `CreateFragment` and `RemoveAtStart`. -/
def takeSegment (f : ByteFill) (first : TxSdu) (nextSegmentSize : ℕ) : ByteFill :=
  let currSegmentSize := min first.size nextSegmentSize
  let newSegment := first.bytes.take currSegmentSize
  let firstSegment := first.bytes.drop currSegmentSize
  let (newTag, oldTag) := first.status.split
  if 0 < firstSegment.length then
    { txBuffer := { first with bytes := firstSegment, status := oldTag } :: f.txBuffer
      txBufferSize := f.txBufferSize + UInt32.ofNat firstSegment.length
      dataField := f.dataField.pushLast { first with bytes := newSegment, status := newTag } }
  else
    { f with
      dataField := f.dataField.pushLast { first with bytes := newSegment, status := newTag.whole } }

/-- The loop of `DoNotifyTxOpportunity`. -/
def fill (first : TxSdu) (nextSegmentSize nextSegmentId : ℕ) (size : UInt32) (d : ByteField)
    (buffer : List TxSdu) : ByteFill :=
  if first.size = 0 ∨ nextSegmentSize = 0 then ⟨buffer, size, d⟩
  else if nextSegmentSize < first.size ∨ 2047 < first.size then
    takeSegment ⟨buffer, size, d⟩ first nextSegmentSize
  else if nextSegmentSize - first.size ≤ 2 then ⟨buffer, size, d.pushLast first⟩
  else
    match buffer with
    | [] => ⟨[], size, d.pushLast first⟩
    | next :: rest =>
        fill next
          (nextSegmentSize - ((if nextSegmentId % 2 = 1 then 2 else 1) + first.size))
          (nextSegmentId + 1) (size - UInt32.ofNat next.size) (d.pushNext first) rest

end ByteFill

/-- The transmitting side with the bytes of its SDUs. -/
structure UmSender where
  maxTxBufferSize : UInt32
  txBufferSize : UInt32 := 0
  txBuffer : List TxSdu := []
  sequenceNumber : ℕ := 0

namespace UmSender

/-- The storing of an SDU in `DoTransmitPdcpPdu`, and whether it is stored. -/
def doTransmitPdcpPdu (s : UmSender) (uid : ℕ) (p : List UInt8) (now : ℤ) : UmSender × Bool :=
  if s.txBufferSize + UInt32.ofNat p.length ≤ s.maxTxBufferSize then
    ({ s with
        txBuffer := s.txBuffer ++ [⟨uid, p, .fullSdu, now⟩]
        txBufferSize := s.txBufferSize + UInt32.ofNat p.length }, true)
  else (s, false)

/-- `DoNotifyTxOpportunity`, and the PDU that it passes to the MAC. -/
def doNotifyTxOpportunity (s : UmSender) (bytes : ℕ) :
    Except RlcFault (UmSender × Option (List UInt8)) :=
  if bytes ≤ 2 then .ok (s, none)
  else
    match s.txBuffer with
    | [] => .ok (s, none)
    | first :: buffer =>
        let f := ByteFill.fill first (bytes - 2) 1 (s.txBufferSize - UInt32.ofNat first.size) {}
          buffer
        match f.dataField.segments.head?, f.dataField.segments.getLast? with
        | some a, some b => do
            let pdu ← addHeader
              { sequenceNumber := s.sequenceNumber
                extensionBits := f.dataField.extensionBits
                lengthIndicators := f.dataField.lengthIndicators
                framingInfo := NrRlcUm.framingInfo a.status b.status }
              (f.dataField.segments.map TxSdu.bytes).flatten
            .ok ({ s with
                txBuffer := f.txBuffer
                txBufferSize := f.txBufferSize
                sequenceNumber := (s.sequenceNumber + 1) % 1024 }, some pdu)
        | _, _ => .error .emptyList

end UmSender

/-! ### The entity without the bytes -/

/-- An SDU of a size that a packet can have. -/
def TxSdu.Small (t : TxSdu) : Prop := t.size < 2 ^ 32

theorem toNat_ofNat_size {t : TxSdu} (h : t.Small) : (UInt32.ofNat t.size).toNat = t.size := by
  rw [UInt32.toNat_ofNat', Nat.mod_eq_of_lt h]

namespace ByteFill

theorem pushLast_sized (d : ByteField) (seg : TxSdu) :
    (d.pushLast seg).sized = d.sized.pushLast seg.sized := by
  simp [ByteField.pushLast, ByteField.sized, DataField.pushLast]

theorem pushNext_sized (d : ByteField) (seg : TxSdu) :
    (d.pushNext seg).sized = d.sized.pushNext seg.sized := by
  simp [ByteField.pushNext, ByteField.sized, DataField.pushNext, TxSdu.sized]

theorem takeSegment_sized {f : ByteFill} {first : TxSdu} (h : first.Small) (n : UInt32) :
    (f.takeSegment first n.toNat).sized = f.sized.takeSegment first.sized n := by
  have hsize := toNat_ofNat_size h
  unfold ByteFill.takeSegment TxFill.takeSegment
  by_cases hn : n.toNat < first.size
  · have hlt : n < first.sized.pdu.size := by
      rw [UInt32.lt_iff_toNat_lt]
      exact hsize ▸ hn
    have hsub : (UInt32.ofNat (first.size - n.toNat)).toNat = first.size - n.toNat := by
      rw [UInt32.toNat_ofNat', Nat.mod_eq_of_lt (lt_of_le_of_lt (Nat.sub_le _ _) h)]
    have hrest : first.sized.pdu.size - n = UInt32.ofNat (first.size - n.toNat) := by
      rw [← UInt32.toNat_inj, UInt32.toNat_sub_of_le _ _ (UInt32.le_of_lt hlt), hsub]
      exact congrArg (· - n.toNat) hsize
    have hpos : 0 < first.sized.pdu.size - n := by
      rw [hrest, UInt32.lt_iff_toNat_lt, hsub]
      exact Nat.sub_pos_of_lt hn
    have hdrop : (first.bytes.drop n.toNat).length = first.size - n.toNat := List.length_drop
    have htake : (first.bytes.take n.toNat).length = n.toNat := by
      rw [List.length_take]
      exact min_eq_left hn.le
    have hmin : min first.size n.toNat = n.toNat := min_eq_right hn.le
    simp only [hmin, if_pos hlt]
    rw [if_pos hpos, if_pos (by omega), hrest, hdrop]
    simp only [sized, pushLast_sized, List.map_cons]
    congr 3
    · simp only [TxSdu.sized, TxSdu.size, hdrop]
    · simp only [TxSdu.sized, TxSdu.size, htake, UInt32.ofNat_toNat]
  · have hlt : ¬ n < first.sized.pdu.size := by
      rw [UInt32.lt_iff_toNat_lt]
      exact fun hn' => hn (hsize ▸ hn')
    have hmin : min first.size n.toNat = first.size := min_eq_left (not_lt.mp hn)
    have htake : first.bytes.take first.size = first.bytes := List.take_length
    have hdrop : first.bytes.drop first.size = [] := List.drop_length
    simp only [hmin, if_neg hlt, UInt32.sub_self]
    rw [hdrop, if_neg (by simp), htake, if_neg (by decide)]
    simp only [sized, pushLast_sized]
    rfl

section Conditions

variable {first : TxSdu} {n : UInt32}

theorem stops_iff (h : first.Small) :
    (first.sized.pdu.size = 0 ∨ n = 0) ↔ (first.size = 0 ∨ n.toNat = 0) := by
  have hsize : first.sized.pdu.size.toNat = first.size := toNat_ofNat_size h
  rw [← UInt32.toNat_inj, ← UInt32.toNat_inj, hsize]
  rfl

theorem fills_iff (h : first.Small) :
    (n < first.sized.pdu.size ∨ 2047 < first.sized.pdu.size) ↔
      (n.toNat < first.size ∨ 2047 < first.size) := by
  have hsize : first.sized.pdu.size.toNat = first.size := toNat_ofNat_size h
  rw [UInt32.lt_iff_toNat_lt, UInt32.lt_iff_toNat_lt, hsize]
  rfl

theorem toNat_sub_size (h : first.Small) (hle : first.size ≤ n.toNat) :
    (n - first.sized.pdu.size).toNat = n.toNat - first.size := by
  have hsize : first.sized.pdu.size.toNat = first.size := toNat_ofNat_size h
  rw [UInt32.toNat_sub_of_le _ _ (UInt32.le_iff_toNat_le.mpr (hsize ▸ hle)), hsize]

theorem isLast_iff (h : first.Small) (hle : first.size ≤ n.toNat) :
    n - first.sized.pdu.size ≤ 2 ↔ n.toNat - first.size ≤ 2 := by
  rw [UInt32.le_iff_toNat_le, toNat_sub_size h hle]
  rfl

theorem toNat_sub_next (h : first.Small) (id : ℕ) (hle : first.size + 2 < n.toNat) :
    (n - ((if id % 2 = 1 then 2 else 1) + first.sized.pdu.size)).toNat =
      n.toNat - ((if id % 2 = 1 then 2 else 1) + first.size) := by
  have hsize : first.sized.pdu.size.toNat = first.size := toNat_ofNat_size h
  have hn := n.toNat_lt
  have hadd : ((if id % 2 = 1 then (2 : UInt32) else 1) + first.sized.pdu.size).toNat =
      (if id % 2 = 1 then 2 else 1) + first.size := by
    rw [UInt32.toNat_add, hsize]
    split
    · exact Nat.mod_eq_of_lt (by rw [show (2 : UInt32).toNat = 2 from rfl]; omega)
    · exact Nat.mod_eq_of_lt (by rw [show (1 : UInt32).toNat = 1 from rfl]; omega)
  rw [UInt32.toNat_sub_of_le _ _ (UInt32.le_iff_toNat_le.mpr ?_), hadd]
  rw [hadd]
  split <;> omega

end Conditions

/-- The loop of the entity without the bytes is that of the entity with them. -/
theorem fill_sized : ∀ {buffer : List TxSdu} {first : TxSdu} {n : UInt32} {m id : ℕ}
    {size : UInt32} {d : ByteField}, n.toNat = m → first.Small → (∀ t ∈ buffer, t.Small) →
    (fill first m id size d buffer).sized =
      TxFill.fill first.sized n id size d.sized (buffer.map TxSdu.sized) := by
  intro buffer
  induction buffer with
  | nil =>
      intro first n m id size d hn h _
      subst hn
      rw [fill, List.map_nil, TxFill.fill]
      simp only [stops_iff h, fills_iff h]
      split
      · rfl
      · split
        · exact takeSegment_sized (f := ⟨[], size, d⟩) h n
        · split <;> split <;> simp only [sized, pushLast_sized, List.map_nil]
  | cons next rest ih =>
      intro first n m id size d hn h hsmall
      subst hn
      rw [fill, List.map_cons, TxFill.fill]
      simp only [stops_iff h, fills_iff h]
      split
      · rfl
      · split
        · exact takeSegment_sized (f := ⟨next :: rest, size, d⟩) h n
        · next hfill =>
            simp only [isLast_iff (n := n) h (by omega)]
            split
            · simp only [sized, pushLast_sized, List.map_cons]
            · rw [← pushNext_sized]
              exact ih (toNat_sub_next h id (by omega)) (hsmall next List.mem_cons_self)
                fun t ht => hsmall t (List.mem_cons_of_mem next ht)

/-- The rest of the buffer is not larger. -/
theorem fill_small : ∀ {buffer : List TxSdu} {first : TxSdu} {n id : ℕ}
    {size : UInt32} {d : ByteField}, first.Small → (∀ t ∈ buffer, t.Small) →
    ∀ t ∈ (fill first n id size d buffer).txBuffer, t.Small := by
  have htake : ∀ {f : ByteFill} {first : TxSdu} {n : ℕ}, first.Small →
      (∀ t ∈ f.txBuffer, t.Small) → ∀ t ∈ (f.takeSegment first n).txBuffer, t.Small := by
    intro f first n h hsmall t ht
    unfold takeSegment at ht
    dsimp only at ht
    split at ht
    · obtain rfl | ht := List.mem_cons.mp ht
      · unfold TxSdu.Small TxSdu.size at *
        simp only [List.length_drop]
        omega
      · exact hsmall t ht
    · exact hsmall t ht
  intro buffer
  induction buffer with
  | nil =>
      intro first n id size d h hsmall
      rw [fill]
      split
      · exact hsmall
      · split
        · exact htake h hsmall
        · split <;> exact hsmall
  | cons next rest ih =>
      intro first n id size d h hsmall
      rw [fill]
      split
      · exact hsmall
      · split
        · exact htake h hsmall
        · split
          · exact hsmall
          · exact ih (hsmall next List.mem_cons_self)
              fun t ht => hsmall t (List.mem_cons_of_mem next ht)

end ByteFill

/-- The entity of the buffer sizes is this one without the bytes. -/
structure Mirrors (s : UmSender) (u : NrRlcUm) : Prop where
  maxTxBufferSize : u.maxTxBufferSize = s.maxTxBufferSize
  txBufferSize : u.txBufferSize = s.txBufferSize
  txBuffer : u.txBuffer = s.txBuffer.map TxSdu.sized
  sequenceNumber : u.sequenceNumber = s.sequenceNumber
  small : ∀ t ∈ s.txBuffer, t.Small

/-- An SDU is stored here if it is stored there. -/
theorem Mirrors.transmit {s : UmSender} {u : NrRlcUm} (h : Mirrors s u) (uid : ℕ) {p : List UInt8}
    (hp : p.length < 2 ^ 32) (now : ℤ) :
    Mirrors (s.doTransmitPdcpPdu uid p now).1
      (u.doTransmitPdcpPdu ⟨uid, UInt32.ofNat p.length⟩ now).1 := by
  have hfits : u.Fits ⟨uid, UInt32.ofNat p.length⟩ ↔
      s.txBufferSize + UInt32.ofNat p.length ≤ s.maxTxBufferSize := by
    rw [NrRlcUm.Fits, h.txBufferSize, h.maxTxBufferSize]
  unfold UmSender.doTransmitPdcpPdu
  split
  · next hs =>
      rw [NrRlcUm.doTransmitPdcpPdu, if_pos (hfits.mpr hs)]
      refine ⟨h.maxTxBufferSize, by simp [NrRlcUm.doTransmitBufferStatusReport, h.txBufferSize],
        ?_, h.sequenceNumber, fun t ht => ?_⟩
      · simp [NrRlcUm.doTransmitBufferStatusReport, h.txBuffer, TxSdu.sized, TxSdu.size]
      · rcases List.mem_append.mp ht with ht | ht
        · exact h.small t ht
        · rw [List.mem_singleton.mp ht]
          exact hp
  · next hs =>
      rw [NrRlcUm.doTransmitPdcpPdu, if_neg (mt hfits.mp hs)]
      exact ⟨h.maxTxBufferSize, h.txBufferSize, h.txBuffer, h.sequenceNumber, h.small⟩

/-- A PDU is built here if it is built there, with the same header and segments of the same
sizes. -/
theorem Mirrors.notify {s s' : UmSender} {u : NrRlcUm} (h : Mirrors s u) (bytes : UInt32)
    {out : Option (List UInt8)}
    (heq : s.doNotifyTxOpportunity bytes.toNat = .ok (s', out)) :
    Mirrors s' (u.doNotifyTxOpportunity bytes).1 ∧
      (out = none → (u.doNotifyTxOpportunity bytes).2 = []) ∧
      ∀ pdu, out = some pdu → ∃ (header : NrRlcHeader) (segs : List TxSdu),
        (u.doNotifyTxOpportunity bytes).2 =
          [.transmitPdu header (segs.map fun t => t.sized.pdu)] ∧
        addHeader header (segs.map TxSdu.bytes).flatten = .ok pdu := by
  have htwo : bytes.toNat ≤ 2 ↔ bytes ≤ 2 := by
    rw [UInt32.le_iff_toNat_le]
    rfl
  unfold UmSender.doNotifyTxOpportunity at heq
  unfold NrRlcUm.doNotifyTxOpportunity
  by_cases hbytes : bytes ≤ 2
  · rw [if_pos (htwo.mpr hbytes)] at heq
    cases heq
    rw [if_pos hbytes]
    exact ⟨h, fun _ => rfl, fun _ hpdu => by cases hpdu⟩
  rw [if_neg (mt htwo.mp hbytes)] at heq
  rw [if_neg hbytes]
  have hbuf := h.txBuffer
  have hsmall := h.small
  cases hs : s.txBuffer with
  | nil =>
      rw [hs] at heq hbuf
      cases heq
      rw [hbuf]
      exact ⟨h, fun _ => rfl, fun _ hpdu => by cases hpdu⟩
  | cons first buffer =>
      rw [hs] at heq hbuf hsmall
      rw [hbuf, List.map_cons]
      dsimp only at heq ⊢
      have hfirst := hsmall first List.mem_cons_self
      have hrest : ∀ t ∈ buffer, t.Small := fun t ht => hsmall t (List.mem_cons_of_mem first ht)
      have hn : (bytes - 2).toNat = bytes.toNat - 2 :=
        UInt32.toNat_sub_of_le _ _ (UInt32.le_of_lt (UInt32.not_le.mp hbytes))
      have hfill : (ByteFill.fill first (bytes.toNat - 2) 1
          (s.txBufferSize - UInt32.ofNat first.size) {} buffer).sized = _ :=
        ByteFill.fill_sized hn hfirst hrest
      have hleft : ∀ t ∈ (ByteFill.fill first (bytes.toNat - 2) 1
          (s.txBufferSize - UInt32.ofNat first.size) {} buffer).txBuffer, t.Small :=
        ByteFill.fill_small hfirst hrest
      rw [h.txBufferSize]
      have hd : ByteField.sized {} = {} := rfl
      rw [hd] at hfill
      rw [show first.sized.pdu.size = UInt32.ofNat first.size from rfl, ← hfill]
      generalize ByteFill.fill first (bytes.toNat - 2) 1
        (s.txBufferSize - UInt32.ofNat first.size) {} buffer = f at heq hleft
      split at heq
      · next a b ha hb =>
          obtain ⟨pdu, h1, h2⟩ := Fallible.bind_eq_ok.mp heq
          cases h2
          have hsn : (u.sequenceNumber + 1) % 1024 = (s.sequenceNumber + 1) % 1024 := by
            rw [h.sequenceNumber]
          refine ⟨⟨h.maxTxBufferSize, rfl, rfl, hsn, hleft⟩, ?_, ?_⟩
          · intro hnone
            cases hnone
          intro pdu' hpdu
          cases hpdu
          refine ⟨_, f.dataField.segments, ?_, h1⟩
          simp [NrRlcUm.buildPdu, ByteFill.sized, ByteField.sized, ha, hb, h.sequenceNumber,
            TxSdu.sized]
      · cases heq

/-! ### The buffer behind a cut -/

open Cuts

/-- The bytes and the status tags of what follows a cut. -/
def tagged (xs : List (List UInt8)) (c : Cut) : List (List UInt8 × SduStatus) :=
  match xs.drop c.block with
  | [] => []
  | x :: r =>
      (x.drop c.offset, if c.offset = 0 then .fullSdu else .lastSegment) :: r.map (·, .fullSdu)

/-- The buffer is what follows the cut. -/
def Queued (xs : List (List UInt8)) (c : Cut) (buffer : List TxSdu) : Prop :=
  buffer.map (fun t => (t.bytes, t.status)) = tagged xs c

section Queue

variable {xs : List (List UInt8)} {a b : Cut}

theorem tagged_border (xs : List (List UInt8)) (i : ℕ) :
    tagged xs ⟨i, 0⟩ = (xs.drop i).map (·, .fullSdu) := by
  unfold tagged
  split
  · next h => rw [h, List.map_nil]
  · next x r h => rw [h, List.map_cons, List.drop_zero, if_pos rfl]

theorem tagged_of_lt (h : a.block < xs.length) :
    tagged xs a = ((blockAt xs a.block).drop a.offset,
      if a.offset = 0 then .fullSdu else .lastSegment) :: tagged xs ⟨a.block + 1, 0⟩ := by
  rw [tagged_border, tagged, List.drop_eq_getElem_cons h, blockAt_of_lt h]

theorem tagged_of_ge (h : xs.length ≤ a.block) : tagged xs a = [] := by
  rw [tagged, List.drop_eq_nil_of_le h]

theorem Queued.cons_iff {first : TxSdu} {buffer : List TxSdu} :
    Queued xs a (first :: buffer) ↔ a.block < xs.length ∧
      first.bytes = (blockAt xs a.block).drop a.offset ∧
      first.status = (if a.offset = 0 then .fullSdu else .lastSegment) ∧
      Queued xs ⟨a.block + 1, 0⟩ buffer := by
  unfold Queued
  rw [List.map_cons]
  by_cases h : a.block < xs.length
  · rw [tagged_of_lt h, List.cons_eq_cons, Prod.mk_inj]
    tauto
  · rw [tagged_of_ge (not_lt.mp h)]
    simp [h]

/-- An accepted SDU goes to the end of the buffer. -/
theorem Queued.concat {buffer : List TxSdu} (h : Queued xs a buffer) (ha : a.Within xs)
    (uid : ℕ) (p : List UInt8) (now : ℤ) :
    Queued (xs ++ [p]) a (buffer ++ [⟨uid, p, .fullSdu, now⟩]) := by
  unfold Queued at *
  rw [List.map_append, h]
  by_cases hlt : a.block < xs.length
  · have hlt' : a.block < (xs ++ [p]).length := by
      rw [List.length_append]
      omega
    rw [tagged_of_lt hlt, tagged_of_lt hlt', blockAt_append hlt, tagged_border, tagged_border,
      List.drop_append_of_le_length (by omega)]
    simp
  · obtain ⟨h1, h2⟩ : a.block = xs.length ∧ a.offset = 0 := by
      unfold Cut.Within at ha
      omega
    obtain ⟨i, o⟩ := a
    dsimp only at h1 h2
    subst h1 h2
    rw [tagged_border, tagged_border]
    simp

theorem Cut.Within.append {ys : List (List UInt8)} (hne : ∀ y ∈ ys, y ≠ []) (ha : a.Within xs) :
    a.Within (xs ++ ys) := by
  rcases ha with ⟨h1, h2⟩ | ⟨h1, h2⟩
  · exact .inl ⟨by rw [List.length_append]; omega, by rw [blockAt_append h1]; exact h2⟩
  · cases ys with
    | nil => exact .inr ⟨by rw [List.append_nil]; exact h1, h2⟩
    | cons y ys =>
        refine .inl ⟨by rw [List.length_append, List.length_cons]; omega, ?_⟩
        rw [h1, h2, blockAt_of_lt (by simp), List.getElem_append_right (le_refl _)]
        simpa [List.length_pos_iff] using hne y List.mem_cons_self

theorem within_border {i : ℕ} (hne : ∀ x ∈ xs, x ≠ []) (h : i ≤ xs.length) :
    Cut.Within xs ⟨i, 0⟩ := by
  obtain hlt | heq := lt_or_eq_of_le h
  · refine .inl ⟨hlt, ?_⟩
    rw [blockAt_of_lt hlt]
    exact List.length_pos_iff.mpr (hne _ (List.getElem_mem hlt))
  · exact .inr ⟨heq, rfl⟩

/-- The data field that the loop builds from the cut `a` to the cut `b`, of the segments `segs`. -/
structure Filled (xs : List (List UInt8)) (a b : Cut) (n k : ℕ) (d : ByteField) (segs : List TxSdu)
    (r : ByteFill) : Prop where
  before : a.Before b
  within : b.Within xs
  queued : Queued xs b r.txBuffer
  segments : r.dataField.segments = d.segments ++ segs
  bytes : segs.map TxSdu.bytes = Cuts.segments xs a b
  extensionBits :
    r.dataField.extensionBits = d.extensionBits ++ (List.replicate (segs.length - 1) 1 ++ [0])
  lengthIndicators : r.dataField.lengthIndicators =
    d.lengthIndicators ++ segs.dropLast.map fun t => UInt16.ofNat t.size
  short : ∀ t ∈ segs.dropLast, t.size ≤ 2047
  first : ∀ t, segs.head? = some t →
    (t.status = .fullSdu ∨ t.status = .firstSegment ↔ a.offset = 0)
  last : ∀ t, segs.getLast? = some t →
    (t.status = .fullSdu ∨ t.status = .lastSegment ↔ b.offset = 0)
  fits : headerBytes (k + (segs.length - 1)) + (segs.map TxSdu.size).sum ≤ headerBytes k + n
  sized : ∀ t ∈ segs, 1 ≤ t.size
  nonempty : segs ≠ []

variable {n k : ℕ} {d : ByteField} {first : TxSdu} {buffer : List TxSdu} {size : UInt32}

theorem Queued.size_pos (hq : Queued xs a (first :: buffer)) (ha : a.Within xs) :
    first.size = (blockAt xs a.block).length - a.offset ∧
      a.offset < (blockAt xs a.block).length := by
  obtain ⟨hlt, hbytes, -, -⟩ := Queued.cons_iff.mp hq
  unfold Cut.Within at ha
  rw [TxSdu.size, hbytes, List.length_drop]
  omega

/-- The head of the buffer ends the data field as a whole. -/
theorem filled_whole (hq : Queued xs a (first :: buffer)) (ha : a.Within xs)
    (hne : ∀ x ∈ xs, x ≠ [])
    (hsize : first.size ≤ n) {seg : TxSdu} (hbytes : seg.bytes = first.bytes)
    (hstatus : seg.status = first.status) :
    Filled xs a ⟨a.block + 1, 0⟩ n k d [seg] ⟨buffer, size, d.pushLast seg⟩ := by
  obtain ⟨hlt, hfirst, hst, hrest⟩ := Queued.cons_iff.mp hq
  refine
    { before := .inl (Nat.lt_succ_self a.block)
      within := within_border hne hlt
      queued := hrest
      segments := rfl
      bytes := by rw [segments_border, List.map_singleton, hbytes, hfirst]
      extensionBits := rfl
      lengthIndicators := (List.append_nil _).symm
      short := fun t ht => absurd ht List.not_mem_nil
      first := fun t ht => ?_
      last := fun t ht => ?_
      fits := ?_
      sized := fun t ht => ?_
      nonempty := List.cons_ne_nil _ _ }
  · cases ht
    rw [hstatus, hst]
    split <;> simp_all
  · obtain rfl := Option.some.inj ht
    rw [List.getLast_singleton, hstatus, hst]
    split <;> simp
  · rw [List.map_singleton, List.sum_singleton, List.length_singleton, TxSdu.size, hbytes]
    exact Nat.add_le_add_left hsize _
  · rw [List.mem_singleton.mp ht, TxSdu.size, hbytes]
    have hpos := hq.size_pos ha
    rw [TxSdu.size] at hpos
    omega

/-- The head of the buffer fills the data field. -/
theorem filled_takeSegment (hq : Queued xs a (first :: buffer)) (ha : a.Within xs)
    (hne : ∀ x ∈ xs, x ≠ []) (hn : 0 < n) :
    ∃ b segs, Filled xs a b n k d segs
      (ByteFill.takeSegment ⟨buffer, size, d⟩ first n) := by
  obtain ⟨hlt, hfirst, hst, hrest⟩ := Queued.cons_iff.mp hq
  obtain ⟨hsize, hoffset⟩ := hq.size_pos ha
  have hlen : first.bytes.length = first.size := rfl
  by_cases hcut : n < first.size
  · have htake : min first.size n = n := by omega
    refine ⟨⟨a.block, a.offset + n⟩, [{ first with
      bytes := first.bytes.take n
      status := first.status.split.1 }], ?_⟩
    rw [ByteFill.takeSegment]
    simp only [htake]
    rw [if_pos (by rw [List.length_drop]; omega)]
    refine
      { before := .inr ⟨rfl, by dsimp only; omega⟩
        within := .inl ⟨hlt, by dsimp only; omega⟩
        queued := ?_
        segments := rfl
        bytes := ?_
        extensionBits := rfl
        lengthIndicators := (List.append_nil _).symm
        short := fun t ht => absurd ht List.not_mem_nil
        first := fun t ht => ?_
        last := fun t ht => ?_
        fits := ?_
        sized := fun t ht => ?_
        nonempty := List.cons_ne_nil _ _ }
    · refine Queued.cons_iff.mpr ⟨hlt, ?_, ?_, hrest⟩
      · simp only [hfirst, List.drop_drop]
      · rw [if_neg (by dsimp only; omega)]
        dsimp only
        rw [hst]
        split <;> rfl
    · rw [Cuts.segments, if_pos rfl]
      simp only [List.map_singleton, hfirst, List.drop_take, Nat.add_sub_cancel_left]
    · cases ht
      dsimp only
      rw [hst]
      split <;> simp_all [SduStatus.split]
    · cases ht
      dsimp only
      rw [hst]
      split
      · simp [SduStatus.split]
        omega
      · simp [SduStatus.split]
        omega
    · simp only [List.map_singleton, List.sum_singleton, List.length_singleton, TxSdu.size,
        List.length_take, Nat.sub_self, Nat.add_zero]
      omega
    · rw [List.mem_singleton.mp ht, TxSdu.size, List.length_take]
      omega
  · have htake : min first.size n = first.size := by omega
    refine ⟨⟨a.block + 1, 0⟩, [{ first with
      bytes := first.bytes.take first.size
      status := first.status.split.1.whole }], ?_⟩
    rw [ByteFill.takeSegment]
    simp only [htake]
    rw [if_neg (by rw [List.length_drop]; omega)]
    refine filled_whole hq ha hne (not_lt.mp hcut) ?_ ?_
    · exact List.take_length
    · dsimp only
      rw [hst]
      split <;> rfl

/-- The head of the buffer is taken as a whole, and more follows. -/
theorem Filled.cons {segs : List TxSdu} {r : ByteFill} (hq : Queued xs a (first :: buffer))
    (ha : a.Within xs) (hsize : first.size ≤ 2047) (hn : first.size + 2 < n)
    (h : Filled xs ⟨a.block + 1, 0⟩ b
      (n - ((if (k + 1) % 2 = 1 then 2 else 1) + first.size)) (k + 1) (d.pushNext first) segs r) :
    Filled xs a b n k d (first :: segs) r := by
  obtain ⟨hlt, hfirst, hst, hrest⟩ := Queued.cons_iff.mp hq
  obtain ⟨seg, segs, rfl⟩ := List.exists_cons_of_ne_nil h.nonempty
  refine
    { before := ?_
      within := h.within
      queued := h.queued
      segments := ?_
      bytes := ?_
      extensionBits := ?_
      lengthIndicators := ?_
      short := ?_
      first := fun t ht => ?_
      last := fun t ht => h.last t (by rwa [List.getLast?_cons_cons] at ht)
      fits := ?_
      sized := ?_
      nonempty := List.cons_ne_nil _ _ }
  · have hbefore := h.before
    unfold Cut.Before at *
    dsimp only at hbefore
    omega
  · rw [h.segments]
    simp [ByteField.pushNext]
  · rw [List.map_cons, h.bytes, segments_cons h.before, hfirst]
  · rw [h.extensionBits]
    simp [ByteField.pushNext, List.replicate_succ]
  · rw [h.lengthIndicators]
    simp [ByteField.pushNext]
  · intro t ht
    rw [List.dropLast_cons_of_ne_nil (List.cons_ne_nil _ _)] at ht
    obtain rfl | ht := List.mem_cons.mp ht
    · exact hsize
    · exact h.short t ht
  · cases ht
    rw [hst]
    split <;> simp_all
  · have hfits := h.fits
    simp only [headerBytes, List.length_cons, List.map_cons, List.sum_cons] at hfits ⊢
    split at hfits <;> omega
  · intro t ht
    rcases List.mem_cons.mp ht with rfl | ht
    · have hpos := hq.size_pos ha
      omega
    · exact h.sized t ht

/-- The loop of `DoNotifyTxOpportunity` builds a data field up to some later cut. -/
theorem fill_filled (hne : ∀ x ∈ xs, x ≠ []) : ∀ {buffer : List TxSdu} {a : Cut} {first : TxSdu}
    {n k : ℕ} {size : UInt32} {d : ByteField}, Queued xs a (first :: buffer) → a.Within xs →
    0 < n → ∃ b segs, Filled xs a b n k d segs (ByteFill.fill first n (k + 1) size d buffer) := by
  intro buffer
  induction buffer with
  | nil =>
      intro a first n k size d hq ha hn
      have hpos := hq.size_pos ha
      rw [ByteFill.fill, if_neg (by omega)]
      split
      · exact filled_takeSegment hq ha hne hn
      · split
        · exact ⟨_, _, filled_whole hq ha hne (by omega) rfl rfl⟩
        · exact ⟨_, _, filled_whole hq ha hne (by omega) rfl rfl⟩
  | cons next rest ih =>
      intro a first n k size d hq ha hn
      have hpos := hq.size_pos ha
      rw [ByteFill.fill, if_neg (by omega)]
      split
      · exact filled_takeSegment hq ha hne hn
      · split
        · exact ⟨_, _, filled_whole hq ha hne (by omega) rfl rfl⟩
        · obtain ⟨hlt, -, -, hrest⟩ := Queued.cons_iff.mp hq
          obtain ⟨b, segs, h⟩ := ih hrest (within_border hne hlt)
            (show 0 < n - ((if (k + 1) % 2 = 1 then 2 else 1) + first.size) by split <;> omega)
          exact ⟨b, first :: segs, h.cons hq ha (by omega) (by omega)⟩

end Queue

/-! ### PDUs -/

/-- The header of a PDU with the frame `f`. -/
def frameHeader (sn : ℕ) (f : Frame UInt8) : NrRlcHeader where
  sequenceNumber := sn
  extensionBits := List.replicate (f.segments.length - 1) 1 ++ [0]
  lengthIndicators := f.segments.dropLast.map fun s => UInt16.ofNat s.length
  framingInfo := (if f.startsInside then 2 else 0) + (if f.endsInside then 1 else 0)

/-- The bytes of a PDU are a header and the data of the frame `f`. -/
structure Encodes (sn : ℕ) (f : Frame UInt8) (pdu : List UInt8) : Prop where
  peek : peekHeader pdu = .ok (frameHeader sn f)
  remove : removeHeader pdu = .ok (frameHeader sn f, f.segments.flatten)
  nonempty : f.segments ≠ []
  short : ∀ s ∈ f.segments.dropLast, s.length ≤ 2047

theorem frameHeader_wellFormed {sn : ℕ} {f : Frame UInt8} (hsn : sn < 1024)
    (hshort : ∀ s ∈ f.segments.dropLast, s.length ≤ 2047) : (frameHeader sn f).WellFormed where
  extensionBits := by
    simp only [frameHeader, List.length_map, List.length_dropLast]
  lengthIndicators := by
    intro li hli
    obtain ⟨s, hs, rfl⟩ := List.mem_map.mp hli
    have h := hshort s hs
    exact NrRlcHeader.toNat_ofNat_lt (by omega)
  sequenceNumber := hsn
  framingInfo := by
    simp only [frameHeader]
    split <;> split <;> omega

theorem frameHeader_of_filled {xs : List (List UInt8)} {a b : Cut} {n : ℕ} {segs : List TxSdu}
    {r : ByteFill} (h : Filled xs a b n 0 {} segs r) {x y : TxSdu}
    (hx : segs.head? = some x) (hy : segs.getLast? = some y) (sn : ℕ) :
    (⟨sn, r.dataField.extensionBits, r.dataField.lengthIndicators,
      NrRlcUm.framingInfo x.status y.status⟩ : NrRlcHeader) = frameHeader sn (frame xs a b) := by
  have hlen : (frame xs a b).segments.length = segs.length := by
    rw [frame, ← h.bytes, List.length_map]
  have hlis : (frame xs a b).segments.dropLast = segs.dropLast.map TxSdu.bytes := by
    rw [frame, ← h.bytes, List.map_dropLast]
  have hfi : NrRlcUm.framingInfo x.status y.status =
      (if a.offset ≠ 0 then 2 else 0) + (if b.offset ≠ 0 then 1 else 0) := by
    unfold NrRlcUm.framingInfo
    simp only [h.first x hx, h.last y hy, ite_not]
  rw [frameHeader, hlen, hlis, h.extensionBits, h.lengthIndicators, hfi, List.map_map]
  simp only [frame, decide_eq_true_eq]
  rfl

/-- **One opportunity.** An opportunity that is not too small for a header, with SDUs waiting, is
answered by a PDU with what lies between the cut and a later one, in at most the bytes of the
opportunity; the buffer is what follows.  A header of `2 ^ 16` bytes needs a larger one. -/
theorem Queued.notify {xs : List (List UInt8)} {a : Cut} {s : UmSender}
    (hq : Queued xs a s.txBuffer) (ha : a.Within xs) (hne : ∀ x ∈ xs, x ≠ [])
    (hsn : s.sequenceNumber < 1024) {bytes : ℕ} (hlt : bytes < 109226) :
    ((bytes ≤ 2 ∨ s.txBuffer = []) ∧ s.doNotifyTxOpportunity bytes = .ok (s, none)) ∨
      ∃ b s' pdu, s.doNotifyTxOpportunity bytes = .ok (s', some pdu) ∧ a.Before b ∧ b.Within xs ∧
        Queued xs b s'.txBuffer ∧ s'.sequenceNumber = (s.sequenceNumber + 1) % 1024 ∧
        Encodes s.sequenceNumber (frame xs a b) pdu ∧ 2 < pdu.length ∧ pdu.length ≤ bytes := by
  unfold UmSender.doNotifyTxOpportunity
  by_cases hbytes : bytes ≤ 2
  · exact .inl ⟨.inl hbytes, if_pos hbytes⟩
  rw [if_neg hbytes]
  cases hbuf : s.txBuffer with
  | nil => exact .inl ⟨.inr rfl, rfl⟩
  | cons first buffer =>
      right
      rw [hbuf] at hq
      obtain ⟨b, segs, h⟩ : ∃ b segs, Filled xs a b (bytes - 2) 0 {} segs (ByteFill.fill first
          (bytes - 2) (0 + 1) (s.txBufferSize - UInt32.ofNat first.size) {} buffer) :=
        fill_filled hne hq ha (by omega)
      generalize hfill : ByteFill.fill first (bytes - 2) (0 + 1)
        (s.txBufferSize - UInt32.ofNat first.size) {} buffer = f at h
      have hsegs : f.dataField.segments = segs := h.segments
      obtain ⟨x, hx⟩ := Option.ne_none_iff_exists'.mp
        (show segs.head? ≠ none by rw [ne_eq, List.head?_eq_none_iff]; exact h.nonempty)
      obtain ⟨y, hy⟩ := Option.ne_none_iff_exists'.mp
        (show segs.getLast? ≠ none by rw [ne_eq, List.getLast?_eq_none_iff]; exact h.nonempty)
      have hbytes' : segs.map TxSdu.bytes = (frame xs a b).segments := h.bytes
      have hshort : ∀ t ∈ (frame xs a b).segments.dropLast, t.length ≤ 2047 := by
        intro t ht
        rw [← hbytes', ← List.map_dropLast] at ht
        obtain ⟨seg, hseg, rfl⟩ := List.mem_map.mp ht
        exact h.short seg hseg
      have hne' : (frame xs a b).segments ≠ [] := by
        rw [← hbytes', ne_eq, List.map_eq_nil_iff]
        exact h.nonempty
      have hw := frameHeader_wellFormed hsn hshort
      have hsum : (frame xs a b).segments.flatten.length = (segs.map TxSdu.size).sum := by
        rw [← hbytes', List.length_flatten, List.map_map]
        rfl
      have hlis : (frameHeader s.sequenceNumber (frame xs a b)).lengthIndicators.length =
          segs.length - 1 := by
        rw [frameHeader, List.length_map, List.length_dropLast, ← hbytes', List.length_map]
      have hfits := h.fits
      rw [Nat.zero_add, ← hsum, ← hlis] at hfits
      have hmany : segs.length ≤ (segs.map TxSdu.size).sum := by
        have hle := List.length_le_sum_of_one_le (segs.map TxSdu.size) fun n hn => by
          obtain ⟨t, ht, rfl⟩ := List.mem_map.mp hn
          exact h.sized t ht
        rwa [List.length_map] at hle
      have htwo : headerBytes 0 = 2 := rfl
      have hheader : headerBytes (frameHeader s.sequenceNumber (frame xs a b)).lengthIndicators.length <
          2 ^ 16 := by
        by_contra hlong
        rw [headerBytes_lt] at hlong
        rw [← hsum] at hmany
        have hpos : 0 < segs.length := List.length_pos_iff.mpr h.nonempty
        unfold headerBytes at hfits
        omega
      obtain ⟨pdu, h1, h2, h3, h4⟩ := addHeader_spec hw hheader (frame xs a b).segments.flatten
      refine ⟨b, { s with
          txBuffer := f.txBuffer
          txBufferSize := f.txBufferSize
          sequenceNumber := (s.sequenceNumber + 1) % 1024 }, pdu, ?_, h.before, h.within,
        h.queued, rfl, ⟨h3, h4, hne', hshort⟩, ?_, ?_⟩
      · simp only [Nat.zero_add] at hfill
        simp only [hfill, hsegs, hx, hy, frameHeader_of_filled h hx hy, hbytes', h1,
          Fallible.ok_bind]
      · have hpos : 0 < (frame xs a b).segments.flatten.length :=
          segments_flatten_pos h.before ha h.within
        unfold headerBytes at h2
        omega
      · rw [h2]
        omega

end Rbis
