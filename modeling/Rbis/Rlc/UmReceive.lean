import Rbis.Lib.OrderedMap
import Rbis.Rlc.SequenceNumber

/-! # The receiving side of the RLC UM entity

`DoReceivePdu` places a PDU in the reception buffer or discards it, moves the reordering window and
reassembles what is next in order; `ExpireReorderingTimer` gives up what is missing.  A PDU is its
bytes.  The SDUs that were passed to the PDCP so far are the field `delivered`; the trace of the
delay of a PDU and the RNTI and LCID, which nothing here reads, are left out. -/

namespace Rbis

inductive ReassemblingState where
  | waitingS0Full
  | waitingSiSf
deriving DecidableEq

structure UmReceiver where
  vrUr : SequenceNumber10 := {}
  vrUx : SequenceNumber10 := {}
  vrUh : SequenceNumber10 := {}
  expectedSeqNumber : SequenceNumber10 := {}
  rxBuffer : Cxx.OrderedMap ℕ (List UInt8) := .empty
  sdusBuffer : List (List UInt8) := []
  reassemblingState : ReassemblingState := .waitingS0Full
  keepS0 : Option (List UInt8) := none
  /-- `m_reorderingTimer.IsPending ()`. -/
  timerPending : Bool := false
  outOfOrderDelivery : Bool := false
  delivered : List (List UInt8) := []

namespace UmReceiver

/-! ### Reassembling -/

variable (s : UmReceiver)

/-- The list of SDUs in the data field. -/
def splitDataField : List ℕ → List UInt16 → List UInt8 → Except RlcFault (List (List UInt8))
  | [], _, _ => .error .emptyList
  | extensionBit :: es, lis, packet =>
      if extensionBit = 0 then .ok [packet]
      else
        match lis with
        | [] => .error .emptyList
        | lengthIndicator :: lis =>
            if packet.length < lengthIndicator.toNat then .error .shortPacket
            else if extensionBit = 1 then do
              let sdus ← splitDataField es lis (packet.drop lengthIndicator.toNat)
              pure (packet.take lengthIndicator.toNat :: sdus)
            else .ok [packet.take lengthIndicator.toNat]

/-- Passing all SDUs to the PDCP. -/
def deliverAll : UmReceiver :=
  { s with delivered := s.delivered ++ s.sdusBuffer, sdusBuffer := [] }

/-- Passing all SDUs but the last, which is kept. -/
def deliverAndKeepS0 : Except RlcFault UmReceiver :=
  match s.sdusBuffer.getLast? with
  | none => .error .emptyList
  | some s0 =>
      .ok { s with
        delivered := s.delivered ++ s.sdusBuffer.dropLast
        sdusBuffer := []
        keepS0 := some s0 }

/-- `m_sdusBuffer.pop_front ()`. -/
def discardFront : Except RlcFault UmReceiver :=
  match s.sdusBuffer with
  | [] => .error .emptyList
  | _ :: sdus => .ok { s with sdusBuffer := sdus }

/-- `m_keepS0->AddAtEnd (m_sdusBuffer.front ()); m_sdusBuffer.pop_front ()`. -/
def addToS0 : Except RlcFault UmReceiver :=
  match s.keepS0, s.sdusBuffer with
  | none, _ => .error .nullPacket
  | _, [] => .error .emptyList
  | some s0, sdu :: sdus => .ok { s with keepS0 := some (s0 ++ sdu), sdusBuffer := sdus }

/-- `m_rlcSapUser->ReceivePdcpPdu (m_keepS0)`. -/
def deliverS0 : Except RlcFault UmReceiver :=
  match s.keepS0 with
  | none => .error .nullPacket
  | some s0 => .ok { s with delivered := s.delivered ++ [s0] }

/-- The new state for a PDU without the first byte and the last byte of an SDU of which no part is
kept. -/
def discardFirst : Except RlcFault UmReceiver := do
  let t ← { s with
    reassemblingState :=
      if s.sdusBuffer.length = 1 then .waitingS0Full else .waitingSiSf }.discardFront
  if t.sdusBuffer.isEmpty then pure t else t.deliverAndKeepS0

/-- The transitions of `ReassembleAndDeliver`; the framing info is two bits, set if the PDU does not
start and if it does not end with an SDU. -/
def reassemble (expectedSnLost : Bool) (framingInfo : ℕ) : Except RlcFault UmReceiver :=
  match expectedSnLost, s.reassemblingState, framingInfo with
  | _, .waitingS0Full, 0 => pure { s with reassemblingState := .waitingS0Full }.deliverAll
  | _, .waitingS0Full, 1 => { s with reassemblingState := .waitingSiSf }.deliverAndKeepS0
  | _, .waitingS0Full, 2 => do
      let t ← { s with reassemblingState := .waitingS0Full }.discardFront
      pure t.deliverAll
  | _, .waitingS0Full, 3 => s.discardFirst
  | false, .waitingSiSf, 2 => do
      let t ← { s with reassemblingState := .waitingS0Full }.addToS0
      let t ← t.deliverS0
      pure t.deliverAll
  | false, .waitingSiSf, 3 =>
      if s.sdusBuffer.length = 1 then s.addToS0
      else do
        let t ← s.addToS0
        let t ← t.deliverS0
        t.deliverAndKeepS0
  | true, .waitingSiSf, 0 =>
      pure { s with reassemblingState := .waitingS0Full, keepS0 := none }.deliverAll
  | true, .waitingSiSf, 1 => { s with keepS0 := none }.deliverAndKeepS0
  | true, .waitingSiSf, 2 => do
      let t ← { s with reassemblingState := .waitingS0Full, keepS0 := none }.discardFront
      pure t.deliverAll
  | true, .waitingSiSf, 3 => { s with keepS0 := none }.discardFirst
  | _, _, _ => pure s

def reassembleAndDeliver (packet : List UInt8) : Except RlcFault UmReceiver := do
  let (rlcHeader, data) ← removeHeader packet
  let currSeqNumber := SequenceNumber10.ofValue rlcHeader.sequenceNumber
  let expectedSnLost := decide (currSeqNumber.value ≠ s.expectedSeqNumber.value)
  let expectedSeqNumber :=
    if expectedSnLost then currSeqNumber.add 1 else s.expectedSeqNumber.increment
  let sdus ← splitDataField rlcHeader.extensionBits rlcHeader.lengthIndicators data
  { s with
    expectedSeqNumber := expectedSeqNumber
    sdusBuffer := s.sdusBuffer ++ sdus }.reassemble expectedSnLost rlcHeader.framingInfo

/-! ### The reordering window -/

def windowSize : ℕ := 512

/-- `IsInsideReorderingWindow`, which moves the modulus base of VR(UH). -/
def isInsideReorderingWindow (seqNumber : SequenceNumber10) :
    Except RlcFault (UmReceiver × Bool) := do
  let base := s.vrUh.sub windowSize
  let vrUh := s.vrUh.setModulusBase base
  let seqNumber := seqNumber.setModulusBase base
  let notBelow ← (vrUh.sub windowSize).le seqNumber
  let inside ← if notBelow then seqNumber.lt vrUh else pure false
  pure ({ s with vrUh := vrUh }, inside)

/-- The loop of `ReassembleOutsideWindow`, by recursion on the entries of the reception buffer. -/
def reassembleOutsideLoop : List (ℕ × List UInt8) → UmReceiver → Except RlcFault UmReceiver
  | [], s => .ok s
  | (sn, packet) :: rest, s => do
      let (s, inside) ← s.isInsideReorderingWindow (.ofValue sn)
      if inside then pure s
      else do
        let s ← s.reassembleAndDeliver packet
        reassembleOutsideLoop rest { s with rxBuffer := s.rxBuffer.erase sn }

def reassembleOutsideWindow : Except RlcFault UmReceiver :=
  reassembleOutsideLoop s.rxBuffer.entries s

/-- The loop of `ReassembleSnInterval`, of a bounded number of rounds. -/
def reassembleSnLoop (highSeqNumber : SequenceNumber10) :
    ℕ → SequenceNumber10 → UmReceiver → Except RlcFault UmReceiver
  | 0, _, _ => .error .noEnd
  | rounds + 1, reassembleSn, s => do
      if ← reassembleSn.lt highSeqNumber then
        let s ← match s.rxBuffer.find reassembleSn.value with
          | none => pure s
          | some packet => do
              let s ← s.reassembleAndDeliver packet
              pure { s with rxBuffer := s.rxBuffer.erase reassembleSn.value }
        reassembleSnLoop highSeqNumber rounds reassembleSn.increment s
      else pure s

def reassembleSnInterval (lowSeqNumber highSeqNumber : SequenceNumber10) :
    Except RlcFault UmReceiver :=
  reassembleSnLoop highSeqNumber 1025 lowSeqNumber s

/-- The first `uint16_t` from `newVrUr` on that is not a key of the buffer. -/
def firstMissing (buffer : Cxx.OrderedMap ℕ (List UInt8)) : ℕ → ℕ → Except RlcFault ℕ
  | 0, _ => .error .noEnd
  | rounds + 1, newVrUr =>
      if buffer.contains newVrUr then firstMissing buffer rounds (newVrUr + 1) else .ok newVrUr

/-- The first sequence number from `newVrUr` on that is not a key of the buffer. -/
def firstMissingSn (buffer : Cxx.OrderedMap ℕ (List UInt8)) :
    ℕ → SequenceNumber10 → Except RlcFault SequenceNumber10
  | 0, _ => .error .noEnd
  | rounds + 1, newVrUr =>
      if buffer.contains newVrUr.value then firstMissingSn buffer rounds newVrUr.increment
      else .ok newVrUr

/-- If `x` falls outside the reordering window, the window moves. -/
def moveWindow (seqNumber : SequenceNumber10) : Except RlcFault UmReceiver := do
  let (s, inside) ← s.isInsideReorderingWindow seqNumber
  if inside then pure s
  else do
    let s ← { s with vrUh := seqNumber.add 1 }.reassembleOutsideWindow
    let (s, urInside) ← s.isInsideReorderingWindow s.vrUr
    if urInside then pure s else pure { s with vrUr := s.vrUh.sub windowSize }

/-- If the reception buffer contains VR(UR), the PDUs from there up to the first missing one are
reassembled.  `newVrUr` is a `uint16_t` that is not reduced: the loop stops at 1024. -/
def advance : Except RlcFault UmReceiver := do
  if s.rxBuffer.contains s.vrUr.value then
    let newVrUr ← firstMissing s.rxBuffer 1025 (s.vrUr.value + 1)
    let oldVrUr := s.vrUr
    let s := { s with vrUr := s.vrUr.assign newVrUr }
    s.reassembleSnInterval oldVrUr s.vrUr
  else pure s

def setModulusBases : UmReceiver :=
  { s with
    vrUr := s.vrUr.setModulusBase (s.vrUh.sub windowSize)
    vrUx := s.vrUx.setModulusBase (s.vrUh.sub windowSize)
    vrUh := s.vrUh.setModulusBase (s.vrUh.sub windowSize) }

/-- The start of t-Reordering. -/
def startTimer : Except RlcFault UmReceiver := do
  if ← s.vrUh.gt s.vrUr then pure { s with timerPending := true, vrUx := s.vrUh } else pure s

/-- The actions on t-Reordering after a PDU was placed in the reception buffer. -/
def updateTimer : Except RlcFault UmReceiver := do
  let s ←
    if s.timerPending then do
      if ← s.vrUx.le s.vrUr then pure { s with timerPending := false }
      else do
        let (s, inside) ← s.isInsideReorderingWindow s.vrUx
        pure { s with timerPending := inside || s.vrUx.value = s.vrUh.value }
    else pure s
  if s.timerPending then pure s else s.startTimer

/-- The PDU was received before, or its SDUs were delivered or given up. -/
def isDuplicate (seqNumber : SequenceNumber10) : Except RlcFault Bool := do
  let received ←
    if ← s.vrUr.lt seqNumber then
      if ← seqNumber.lt s.vrUh then pure (s.rxBuffer.contains seqNumber.value) else pure false
    else pure false
  if received then pure true
  else if ← (s.vrUh.sub windowSize).le seqNumber then seqNumber.lt s.vrUr
  else pure false

def doReceivePdu (p : List UInt8) : Except RlcFault UmReceiver := do
  let rlcHeader ← peekHeader p
  let seqNumber :=
    (SequenceNumber10.ofValue rlcHeader.sequenceNumber).setModulusBase (s.vrUh.sub windowSize)
  let s := { s with
    vrUr := s.vrUr.setModulusBase (s.vrUh.sub windowSize)
    vrUh := s.vrUh.setModulusBase (s.vrUh.sub windowSize) }
  if ← s.isDuplicate seqNumber then pure s
  else do
    let s := { s with rxBuffer := s.rxBuffer.insert seqNumber.value p }
    let s ← if s.outOfOrderDelivery then s.reassembleOutsideWindow else pure s
    let s ← s.moveWindow seqNumber
    let s ← s.advance
    s.setModulusBases.updateTimer

/-- `ExpireReorderingTimer`, when the timer is running. -/
def expireReorderingTimer : Except RlcFault UmReceiver := do
  let newVrUr ← firstMissingSn s.rxBuffer 1025 s.vrUx
  let oldVrUr := s.vrUr
  let s := { s with timerPending := false, vrUr := newVrUr }
  let s ← s.reassembleSnInterval oldVrUr s.vrUr
  s.startTimer

end UmReceiver

end Rbis
