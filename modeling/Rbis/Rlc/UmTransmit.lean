import Mathlib.Data.Int.Notation
import Rbis.Lib.Runs

/-! # The transmitting side of the RLC UM entity

`NrRlcUm` keeps the SDUs of the PDCP in `m_txBuffer` and their total size in `m_txBufferSize`.
`DoTransmitPdcpPdu` stores or drops an SDU; `DoNotifyTxOpportunity` takes SDUs from the buffer,
the last of them in part if the opportunity is too small, and builds the data field and the header
of one PDU.  Sizes are `uint32_t`, times are nanoseconds.

What a call tells the rest of the system (the drop trace, the PDU and the buffer status report) is
its list of events.  The RNTI, LCID, HARQ process, layer and component carrier, copied from the
configuration and the opportunity into these messages, are left out. -/

namespace Rbis

/-- The values of `NrRlcSduStatusTag`. -/
inductive SduStatus where
  | fullSdu
  | firstSegment
  | middleSegment
  | lastSegment
  | anySegment
deriving DecidableEq

/-- A packet of the simulator: its identity and its size. -/
structure Packet where
  uid : ℕ
  size : UInt32
deriving DecidableEq

/-- An SDU, or what is left of one, with its status tag. -/
structure TxPdu where
  pdu : Packet
  status : SduStatus
  waitingSince : ℤ
deriving DecidableEq

structure NrRlcHeader where
  sequenceNumber : ℕ
  extensionBits : List ℕ := []
  lengthIndicators : List UInt16 := []
  framingInfo : ℕ
deriving DecidableEq

/-- What the entity tells its environment. -/
inductive UmEvent where
  /-- `m_txDropTrace`. -/
  | txDrop (p : Packet)
  /-- `TransmitPdu`: the header and the data field. -/
  | transmitPdu (header : NrRlcHeader) (dataField : List Packet)
  /-- `BufferStatusReport`: the queue size, the age of its head in milliseconds, and whether the
  timer caused it. -/
  | bufferStatusReport (txQueueSize : UInt32) (txQueueHolDelay : UInt16) (expBsrTimer : Bool)
  /-- `*it` of an empty data field. -/
  | emptyDataField
deriving DecidableEq

structure NrRlcUm where
  maxTxBufferSize : UInt32
  enablePdcpDiscarding : Bool
  discardTimerMs : UInt32
  packetDelayBudgetMs : UInt16
  txBufferSize : UInt32 := 0
  txBuffer : List TxPdu := []
  sequenceNumber : ℕ := 0
  expBsrTimer : Bool := false

namespace NrRlcUm

/-! ### SDUs from the PDCP -/

variable (s : NrRlcUm)

/-- `(Simulator::Now() - m_txBuffer.begin()->m_waitingSince).GetMilliSeconds()`. -/
def holDelayMs (now : ℤ) : ℤ :=
  match s.txBuffer with
  | [] => 0
  | head :: _ => (now - head.waitingSince).tdiv 1000000

def doTransmitBufferStatusReport (now : ℤ) : NrRlcUm × List UmEvent :=
  let queueSize :=
    if s.txBuffer.isEmpty then 0 else s.txBufferSize + 2 * UInt32.ofNat s.txBuffer.length
  ({ s with expBsrTimer := false },
    [.bufferStatusReport queueSize (UInt16.ofInt (s.holDelayMs now)) s.expBsrTimer])

/-- `m_txBufferSize + p->GetSize() <= m_maxTxBufferSize`. -/
def Fits (p : Packet) : Prop := s.txBufferSize + p.size ≤ s.maxTxBufferSize

instance (p : Packet) : Decidable (s.Fits p) :=
  inferInstanceAs (Decidable (s.txBufferSize + p.size ≤ s.maxTxBufferSize))

def discardTimer : UInt32 :=
  if 0 < s.discardTimerMs then s.discardTimerMs else s.packetDelayBudgetMs.toUInt32

/-- Discarding is enabled and the head of the buffer is older than the discard timer. -/
def HeadExpired (now : ℤ) : Prop :=
  s.enablePdcpDiscarding = true ∧ s.discardTimer < UInt32.ofInt (s.holDelayMs now)

instance (now : ℤ) : Decidable (s.HeadExpired now) :=
  inferInstanceAs
    (Decidable (s.enablePdcpDiscarding = true ∧ s.discardTimer < UInt32.ofInt (s.holDelayMs now)))

/-- `DoTransmitPdcpPdu`.  An SDU behind an expired one is reported as dropped and then stored: the
`return` in between is commented out. -/
def doTransmitPdcpPdu (p : Packet) (now : ℤ) : NrRlcUm × List UmEvent :=
  if s.Fits p then
    let dropped := if s.HeadExpired now then [UmEvent.txDrop p] else []
    let stored : NrRlcUm :=
      { s with
        txBuffer := s.txBuffer ++ [⟨p, .fullSdu, now⟩]
        txBufferSize := s.txBufferSize + p.size }
    let report := stored.doTransmitBufferStatusReport now
    (report.1, dropped ++ report.2)
  else
    let report := s.doTransmitBufferStatusReport now
    (report.1, .txDrop p :: report.2)

/-! ### Opportunities of the MAC -/

end NrRlcUm

/-- The data field under construction and its part of the header. -/
structure DataField where
  segments : List TxPdu := []
  extensionBits : List ℕ := []
  lengthIndicators : List UInt16 := []

namespace DataField

/-- `DATA_FIELD_FOLLOWS`: the last segment, which has no length indicator. -/
def pushLast (d : DataField) (seg : TxPdu) : DataField :=
  { d with segments := d.segments ++ [seg], extensionBits := d.extensionBits ++ [0] }

/-- `E_LI_FIELDS_FOLLOWS`. -/
def pushNext (d : DataField) (seg : TxPdu) : DataField where
  segments := d.segments ++ [seg]
  extensionBits := d.extensionBits ++ [1]
  lengthIndicators := d.lengthIndicators ++ [seg.pdu.size.toUInt16]

end DataField

/-- The buffer, its size and the data field. -/
structure TxFill where
  txBuffer : List TxPdu
  txBufferSize : UInt32
  dataField : DataField

/-- The status tags of the part that is sent and of the part that is given back. -/
def SduStatus.split : SduStatus → SduStatus × SduStatus
  | .fullSdu => (.firstSegment, .lastSegment)
  | .lastSegment => (.middleSegment, .lastSegment)
  | old => (old, old)

/-- The status tag of a segment taken as a whole, from that of its first part. -/
def SduStatus.whole : SduStatus → SduStatus
  | .firstSegment => .fullSdu
  | .middleSegment => .lastSegment
  | st => st

namespace TxFill

/-- The segment that fills the data field: the rest of the SDU, if any, goes back to the head of the
buffer. -/
def takeSegment (f : TxFill) (first : TxPdu) (nextSegmentSize : UInt32) : TxFill :=
  let currSegmentSize :=
    if nextSegmentSize < first.pdu.size then nextSegmentSize else first.pdu.size
  let rest := first.pdu.size - currSegmentSize
  let (newTag, oldTag) := first.status.split
  let sent (tag : SduStatus) : TxPdu :=
    { first with pdu := ⟨first.pdu.uid, currSegmentSize⟩, status := tag }
  if 0 < rest then
    { txBuffer := { first with pdu := ⟨first.pdu.uid, rest⟩, status := oldTag } :: f.txBuffer
      txBufferSize := f.txBufferSize + rest
      dataField := f.dataField.pushLast (sent newTag) }
  else { f with dataField := f.dataField.pushLast (sent newTag.whole) }

/-- The loop of `DoNotifyTxOpportunity`, by recursion on the buffer: `first` was removed from it. -/
def fill (first : TxPdu) (nextSegmentSize : UInt32) (nextSegmentId : ℕ) (size : UInt32)
    (d : DataField) (buffer : List TxPdu) : TxFill :=
  if first.pdu.size = 0 ∨ nextSegmentSize = 0 then ⟨buffer, size, d⟩
  else if nextSegmentSize < first.pdu.size ∨ 2047 < first.pdu.size then
    takeSegment ⟨buffer, size, d⟩ first nextSegmentSize
  else if nextSegmentSize - first.pdu.size ≤ 2 then ⟨buffer, size, d.pushLast first⟩
  else
    match buffer with
    | [] => ⟨[], size, d.pushLast first⟩
    | next :: rest =>
        fill next
          (nextSegmentSize - ((if nextSegmentId % 2 = 1 then 2 else 1) + first.pdu.size))
          (nextSegmentId + 1) (size - next.pdu.size) (d.pushNext first) rest

end TxFill

namespace NrRlcUm

variable (s : NrRlcUm)

/-- The framing info of the data field: two bits, set if the first byte is not that of an SDU and
if the last byte is not that of one. -/
def framingInfo (first last : SduStatus) : ℕ :=
  (if first = .fullSdu ∨ first = .firstSegment then 0 else 2) +
    (if last = .fullSdu ∨ last = .lastSegment then 0 else 1)

/-- The PDU of a data field. -/
def buildPdu (d : DataField) : List UmEvent :=
  match d.segments.head?, d.segments.getLast? with
  | some first, some last =>
      [.transmitPdu
        { sequenceNumber := s.sequenceNumber
          extensionBits := d.extensionBits
          lengthIndicators := d.lengthIndicators
          framingInfo := framingInfo first.status last.status }
        (d.segments.map TxPdu.pdu)]
  | _, _ => [.emptyDataField]

/-- `DoNotifyTxOpportunity`. -/
def doNotifyTxOpportunity (bytes : UInt32) : NrRlcUm × List UmEvent :=
  if bytes ≤ 2 then (s, [])
  else
    match s.txBuffer with
    | [] => (s, [])
    | first :: buffer =>
        let f := TxFill.fill first (bytes - 2) 1 (s.txBufferSize - first.pdu.size) {} buffer
        ({ s with
            txBuffer := f.txBuffer
            txBufferSize := f.txBufferSize
            sequenceNumber := (s.sequenceNumber + 1) % 1024 },
          s.buildPdu f.dataField)

/-- `ExpireBsrTimer`. -/
def doExpireBsrTimer (now : ℤ) : NrRlcUm × List UmEvent :=
  if s.txBuffer.isEmpty then (s, [])
  else { s with expBsrTimer := true }.doTransmitBufferStatusReport now

end NrRlcUm

end Rbis
