import Rbis.Lib.Bits
import Rbis.Lib.Fallible
import Rbis.Rlc.UmTransmit

/-! # The bytes of an RLC header

`Serialize` packs the framing info, the extension bits, the ten bits of the sequence number and the
length indicators of eleven bits; a pair of length indicators takes three bytes, a last one without
partner two.  `Deserialize` reads them back (`deserialize_serialize`), whatever follows the header,
and what it accepts is a header that `Serialize` can write (`deserialize_wellFormed`). -/

namespace Rbis

/-- What stops the entity: the source reads behind the end of a list or a buffer, follows a null
pointer or fails an assertion. -/
inductive RlcFault where
  /-- The front of an empty list. -/
  | emptyList
  /-- `ReadU8` behind the end of the packet, or `WriteU8` behind the bytes reserved for a header. -/
  | endOfBuffer
  /-- A fragment longer than the packet. -/
  | shortPacket
  /-- A comparison of sequence numbers of different modulus bases. -/
  | modulusBase
  /-- No packet behind the pointer. -/
  | nullPacket
  /-- A loop that does not end. -/
  | noEnd
deriving DecidableEq

/-- `m_headerLength` (`uint16_t`) after a number of calls of `PushExtensionBit`. -/
def headerLength : ℕ → ℕ
  | 0 => 0
  | n + 1 =>
      if n + 1 = 1 then 2
      else if (n + 1) % 2 = 1 then (headerLength n + 1) % 2 ^ 16
      else (headerLength n + 2) % 2 ^ 16

/-- The bytes of a header with a number of length indicators. -/
def headerBytes (n : ℕ) : ℕ := 2 + n + (n + 1) / 2

namespace NrRlcHeader

def getSerializedSize (h : NrRlcHeader) : ℕ := headerLength h.extensionBits.length

/-- The loop of `Serialize`; the padding is implicit. -/
def serializeLis : List ℕ → List UInt16 → List UInt8
  | oddE :: evenE :: es, oddLi :: evenLi :: lis =>
      UInt8.ofNat (((oddE <<< 7) &&& 0x80) ||| ((oddLi.toNat >>> 4) &&& 0x7F)) ::
        UInt8.ofNat (((oddLi.toNat <<< 4) &&& 0xF0) ||| ((evenE <<< 3) &&& 0x08) |||
          ((evenLi.toNat >>> 8) &&& 0x07)) ::
        UInt8.ofNat (evenLi.toNat &&& 0xFF) :: serializeLis es lis
  | oddE :: _, oddLi :: _ =>
      [UInt8.ofNat (((oddE <<< 7) &&& 0x80) ||| ((oddLi.toNat >>> 4) &&& 0x7F)),
        UInt8.ofNat ((oddLi.toNat <<< 4) &&& 0xF0)]
  | _, _ => []

def serialize (h : NrRlcHeader) : Except RlcFault (List UInt8) :=
  match h.extensionBits with
  | [] => .error .emptyList
  | e :: es =>
      .ok (UInt8.ofNat (((h.framingInfo <<< 3) &&& 0x18) ||| ((e <<< 2) &&& 0x04) |||
          ((h.sequenceNumber >>> 8) &&& 0x03)) ::
        UInt8.ofNat (h.sequenceNumber &&& 0xFF) :: serializeLis es h.lengthIndicators)

def push (h : NrRlcHeader) (e : ℕ) (li : UInt16) : NrRlcHeader :=
  { h with
    extensionBits := h.extensionBits ++ [e]
    lengthIndicators := h.lengthIndicators ++ [li] }

/-- The loop of `Deserialize` on the bytes that are left; it returns the header and its length. -/
def deserializeLis (h : NrRlcHeader) (headerLength : ℕ) :
    List UInt8 → Except RlcFault (NrRlcHeader × ℕ)
  | byte1 :: byte2 :: bytes =>
      let oddE := (byte1.toNat &&& 0x80) >>> 7
      let oddLi := ((byte1.toNat &&& 0x7F) <<< 4) ||| ((byte2.toNat &&& 0xF0) >>> 4)
      let h := h.push oddE (UInt16.ofNat oddLi)
      if oddE = 1 then
        match bytes with
        | byte3 :: bytes =>
            let evenE := (byte2.toNat &&& 0x08) >>> 3
            let evenLi := ((byte2.toNat &&& 0x07) <<< 8) ||| (byte3.toNat &&& 0xFF)
            let h := h.push evenE (UInt16.ofNat evenLi)
            if evenE = 1 then deserializeLis h ((headerLength + 3) % 2 ^ 16) bytes
            else .ok (h, (headerLength + 3) % 2 ^ 16)
        | [] => .error .endOfBuffer
      else .ok (h, (headerLength + 2) % 2 ^ 16)
  | _ => .error .endOfBuffer

def deserialize : List UInt8 → Except RlcFault (NrRlcHeader × ℕ)
  | byte1 :: byte2 :: bytes =>
      let extensionBit := (byte1.toNat &&& 0x04) >>> 2
      let h : NrRlcHeader :=
        { framingInfo := (byte1.toNat &&& 0x18) >>> 3
          sequenceNumber := (((byte1.toNat &&& 0x03) <<< 8) ||| byte2.toNat) % 1024
          extensionBits := [extensionBit] }
      if extensionBit = 0 then .ok (h, 2) else deserializeLis h 2 bytes
  | _ => .error .endOfBuffer

end NrRlcHeader

/-- `Packet::PeekHeader`. -/
def peekHeader (packet : List UInt8) : Except RlcFault NrRlcHeader := do
  let (h, _) ← NrRlcHeader.deserialize packet
  pure h

/-- `Packet::RemoveHeader`. -/
def removeHeader (packet : List UInt8) : Except RlcFault (NrRlcHeader × List UInt8) := do
  let (h, n) ← NrRlcHeader.deserialize packet
  pure (h, packet.drop n)

/-- `Packet::AddHeader`: the header is written into the bytes that `GetSerializedSize` asks for. -/
def addHeader (h : NrRlcHeader) (packet : List UInt8) : Except RlcFault (List UInt8) := do
  let bytes ← h.serialize
  if bytes.length ≠ h.getSerializedSize then throw .endOfBuffer
  pure (bytes ++ packet)

/-! ### The bit fields -/

theorem headByte_eq (fi e sn : ℕ) :
    ((fi <<< 3) &&& 0x18) ||| ((e <<< 2) &&& 0x04) ||| ((sn >>> 8) &&& 0x03) =
      fi % 4 * 2 ^ 3 + (e % 2 * 2 ^ 2 + sn / 256 % 4) := by
  have hfi : (fi <<< 3) &&& 0x18 = fi % 4 * 2 ^ 3 := Bits.shiftLeft_and fi 3 2
  have he : (e <<< 2) &&& 0x04 = e % 2 * 2 ^ 2 := Bits.shiftLeft_and e 2 1
  have hsn : (sn >>> 8) &&& 0x03 = sn / 256 % 4 := Bits.shiftRight_and sn 8 2
  rw [hfi, he, hsn, Nat.or_assoc, Bits.mul_or (e % 2) (by omega), Bits.mul_or (fi % 4) (by omega)]

theorem oddByte_eq (e li : ℕ) :
    ((e <<< 7) &&& 0x80) ||| ((li >>> 4) &&& 0x7F) = e % 2 * 2 ^ 7 + li / 16 % 128 := by
  have he : (e <<< 7) &&& 0x80 = e % 2 * 2 ^ 7 := Bits.shiftLeft_and e 7 1
  have hli : (li >>> 4) &&& 0x7F = li / 16 % 128 := Bits.shiftRight_and li 4 7
  rw [he, hli, Bits.mul_or (e % 2) (by omega)]

theorem oddNibble_eq (li : ℕ) : (li <<< 4) &&& 0xF0 = li % 16 * 16 := Bits.shiftLeft_and li 4 4

theorem sharedByte_eq (oddLi e evenLi : ℕ) :
    ((oddLi <<< 4) &&& 0xF0) ||| ((e <<< 3) &&& 0x08) ||| ((evenLi >>> 8) &&& 0x07) =
      oddLi % 16 * 2 ^ 4 + (e % 2 * 2 ^ 3 + evenLi / 256 % 8) := by
  have hodd : (oddLi <<< 4) &&& 0xF0 = oddLi % 16 * 2 ^ 4 := Bits.shiftLeft_and oddLi 4 4
  have he : (e <<< 3) &&& 0x08 = e % 2 * 2 ^ 3 := Bits.shiftLeft_and e 3 1
  have heven : (evenLi >>> 8) &&& 0x07 = evenLi / 256 % 8 := Bits.shiftRight_and evenLi 8 3
  rw [hodd, he, heven, Nat.or_assoc, Bits.mul_or (e % 2) (by omega),
    Bits.mul_or (oddLi % 16) (by omega)]

theorem and_ff (x : ℕ) : x &&& 0xFF = x % 256 := Nat.and_two_pow_sub_one_eq_mod x 8

theorem readOddLi_eq (b1 b2 : ℕ) :
    ((b1 &&& 0x7F) <<< 4) ||| ((b2 &&& 0xF0) >>> 4) = b1 % 128 * 2 ^ 4 + b2 / 16 % 16 := by
  have h1 : b1 &&& 0x7F = b1 % 128 := Nat.and_two_pow_sub_one_eq_mod b1 7
  have h2 : (b2 &&& 0xF0) >>> 4 = b2 / 16 % 16 := Bits.and_shiftRight b2 4 4
  rw [h1, h2, Nat.shiftLeft_eq, Bits.mul_or (b1 % 128) (by omega)]

theorem readEvenLi_eq (b2 b3 : ℕ) :
    ((b2 &&& 0x07) <<< 8) ||| (b3 &&& 0xFF) = b2 % 8 * 2 ^ 8 + b3 % 256 := by
  have h2 : b2 &&& 0x07 = b2 % 8 := Nat.and_two_pow_sub_one_eq_mod b2 3
  rw [h2, and_ff, Nat.shiftLeft_eq, Bits.mul_or (b2 % 8) (by omega)]

theorem readSn_eq (b1 : ℕ) {b2 : ℕ} (h : b2 < 256) :
    ((b1 &&& 0x03) <<< 8) ||| b2 = b1 % 4 * 2 ^ 8 + b2 := by
  have h1 : b1 &&& 0x03 = b1 % 4 := Nat.and_two_pow_sub_one_eq_mod b1 2
  rw [h1, Nat.shiftLeft_eq, Bits.mul_or (b1 % 4) h]

theorem readE7_eq (b : ℕ) : (b &&& 0x80) >>> 7 = b / 128 % 2 := Bits.and_shiftRight b 7 1

theorem readE3_eq (b : ℕ) : (b &&& 0x08) >>> 3 = b / 8 % 2 := Bits.and_shiftRight b 3 1

theorem readE2_eq (b : ℕ) : (b &&& 0x04) >>> 2 = b / 4 % 2 := Bits.and_shiftRight b 2 1

theorem readFi_eq (b : ℕ) : (b &&& 0x18) >>> 3 = b / 8 % 4 := Bits.and_shiftRight b 3 2

theorem headerLength_succ (n : ℕ) : headerLength (n + 1) = headerBytes n % 2 ^ 16 := by
  induction n with
  | zero => rfl
  | succ n ih =>
      rw [headerLength, ih, if_neg (by omega)]
      unfold headerBytes
      split <;> omega

theorem headerBytes_lt {n : ℕ} : headerBytes n < 2 ^ 16 ↔ n < 43689 := by
  unfold headerBytes
  omega

/-! ### The round trip -/

namespace NrRlcHeader

/-- The headers of the transmitting side: each length indicator is announced by an extension bit,
and the fields are not wider than their place. -/
structure WellFormed (h : NrRlcHeader) : Prop where
  extensionBits : h.extensionBits = List.replicate h.lengthIndicators.length 1 ++ [0]
  lengthIndicators : ∀ li ∈ h.lengthIndicators, li.toNat < 2048
  sequenceNumber : h.sequenceNumber < 1024
  framingInfo : h.framingInfo < 4

/-- The extension bit in front of `n` length indicators. -/
def bitBefore : ℕ → ℕ
  | 0 => 0
  | _ + 1 => 1

/-- The extension bits among `n` length indicators. -/
def bitsAmong : ℕ → List ℕ
  | 0 => []
  | n + 1 => bitBefore n :: bitsAmong n

theorem bitBefore_cons_bitsAmong (n : ℕ) :
    bitBefore n :: bitsAmong n = List.replicate n 1 ++ [0] := by
  induction n with
  | zero => rfl
  | succ n ih =>
      rw [bitsAmong, ih, List.replicate_succ, List.cons_append]
      rfl

theorem length_serializeLis : ∀ (lis : List UInt16),
    (serializeLis (bitsAmong lis.length) lis).length = lis.length + (lis.length + 1) / 2
  | [] => by simp [bitsAmong, serializeLis]
  | [_] => by simp [bitsAmong, serializeLis]
  | _ :: _ :: lis => by
      have ih := length_serializeLis lis
      simp only [List.length_cons, bitsAmong, serializeLis, ih]
      omega

theorem toNat_ofNat_of_lt {n : ℕ} (h : n < 256) : (UInt8.ofNat n).toNat = n := by
  rw [UInt8.toNat_ofNat', Nat.mod_eq_of_lt h]

theorem ofNat_eq_of_eq (li : UInt16) {n : ℕ} (h : n = li.toNat) : UInt16.ofNat n = li := by
  rw [h, UInt16.ofNat_toNat]

theorem bitBefore_lt : ∀ n, bitBefore n < 2
  | 0 => Nat.zero_lt_two
  | _ + 1 => Nat.one_lt_two

theorem deserializeLis_last (h : NrRlcHeader) (n : ℕ) {byte1 : UInt8} (byte2 : UInt8)
    (bytes : List UInt8) (hE : byte1.toNat / 128 % 2 = 0) :
    deserializeLis h n (byte1 :: byte2 :: bytes) =
      .ok (h.push 0 (UInt16.ofNat (byte1.toNat % 128 * 2 ^ 4 + byte2.toNat / 16 % 16)),
        (n + 2) % 2 ^ 16) := by
  rw [deserializeLis.eq_def]
  simp only [readE7_eq, readOddLi_eq, hE]
  rfl

theorem deserializeLis_pair (h : NrRlcHeader) (n : ℕ) {byte1 : UInt8} (byte2 byte3 : UInt8)
    (bytes : List UInt8) (hE : byte1.toNat / 128 % 2 = 1) :
    deserializeLis h n (byte1 :: byte2 :: byte3 :: bytes) =
      if byte2.toNat / 8 % 2 = 1 then
        deserializeLis
          ((h.push 1 (UInt16.ofNat (byte1.toNat % 128 * 2 ^ 4 + byte2.toNat / 16 % 16))).push 1
            (UInt16.ofNat (byte2.toNat % 8 * 2 ^ 8 + byte3.toNat % 256))) ((n + 3) % 2 ^ 16) bytes
      else
        .ok ((h.push 1 (UInt16.ofNat (byte1.toNat % 128 * 2 ^ 4 + byte2.toNat / 16 % 16))).push 0
          (UInt16.ofNat (byte2.toNat % 8 * 2 ^ 8 + byte3.toNat % 256)), (n + 3) % 2 ^ 16) := by
  rw [deserializeLis]
  simp only [readE7_eq, readOddLi_eq, readE3_eq, readEvenLi_eq, hE, if_true]
  split
  · next h1 => rw [h1]
  · next h1 => rw [show byte2.toNat / 8 % 2 = 0 by omega]

/-- The loop of `Deserialize` reads the loop of `Serialize`. -/
theorem deserializeLis_serializeLis (rest : List UInt8) :
    ∀ {lis : List UInt16} (n : ℕ) (h : NrRlcHeader), lis ≠ [] → (∀ li ∈ lis, li.toNat < 2048) →
      deserializeLis h n (serializeLis (bitsAmong lis.length) lis ++ rest) =
        .ok ({ h with
              extensionBits := h.extensionBits ++ bitsAmong lis.length
              lengthIndicators := h.lengthIndicators ++ lis },
          (n + (lis.length + (lis.length + 1) / 2)) % 2 ^ 16)
  | [], _, h, hne, _ => absurd rfl hne
  | [li], n, h, _, hlis => by
      have hli := hlis li List.mem_cons_self
      have hE : bitBefore 0 = 0 := rfl
      have h1 := toNat_ofNat_of_lt
        (show bitBefore 0 % 2 * 2 ^ 7 + li.toNat / 16 % 128 < 256 by omega)
      have h2 := toNat_ofNat_of_lt (show li.toNat % 16 * 16 < 256 by omega)
      simp only [List.length_cons, List.length_nil, bitsAmong, serializeLis, List.cons_append,
        List.nil_append, oddByte_eq, oddNibble_eq]
      rw [deserializeLis_last h n _ rest (by omega), h1, h2, ofNat_eq_of_eq li (by omega)]
      rfl
  | oddLi :: evenLi :: lis, n, h, _, hlis => by
      have hodd := hlis oddLi List.mem_cons_self
      have heven := hlis evenLi (List.mem_cons_of_mem _ List.mem_cons_self)
      have hE := bitBefore_lt lis.length
      have hE1 : bitBefore (lis.length + 1) = 1 := rfl
      have h1 := toNat_ofNat_of_lt
        (show bitBefore (lis.length + 1) % 2 * 2 ^ 7 + oddLi.toNat / 16 % 128 < 256 by omega)
      have h2 := toNat_ofNat_of_lt
        (show oddLi.toNat % 16 * 2 ^ 4 +
          (bitBefore lis.length % 2 * 2 ^ 3 + evenLi.toNat / 256 % 8) < 256 by omega)
      have h3 := toNat_ofNat_of_lt (show evenLi.toNat % 256 < 256 by omega)
      simp only [List.length_cons, bitsAmong, serializeLis, List.cons_append, oddByte_eq,
        sharedByte_eq, and_ff]
      rw [deserializeLis_pair h n _ _ _ (by omega), h1, h2, h3,
        ofNat_eq_of_eq oddLi (by omega), ofNat_eq_of_eq evenLi (by omega)]
      cases lis with
      | nil =>
          have hE0 : bitBefore ([] : List UInt16).length = 0 := rfl
          rw [if_neg (by omega)]
          simp [push, bitsAmong, bitBefore]
      | cons li lis =>
          have hE2 : bitBefore (li :: lis).length = 1 := rfl
          rw [if_pos (by omega), deserializeLis_serializeLis rest _ _ (List.cons_ne_nil li lis)
            fun x hx => hlis x (List.mem_cons_of_mem _ (List.mem_cons_of_mem _ hx))]
          simp only [push, List.append_assoc, List.cons_append, List.nil_append, hE1, hE2]
          congr 2
          omega

variable {h : NrRlcHeader}

theorem WellFormed.getSerializedSize (hw : h.WellFormed) :
    h.getSerializedSize = headerBytes h.lengthIndicators.length % 2 ^ 16 := by
  unfold NrRlcHeader.getSerializedSize
  rw [hw.extensionBits, List.length_append, List.length_replicate, List.length_singleton,
    headerLength_succ]

/-- `Deserialize` reads back the header that `Serialize` writes, whatever follows it. -/
theorem deserialize_serialize (hw : h.WellFormed) (rest : List UInt8) :
    ∃ bytes, h.serialize = .ok bytes ∧ bytes.length = headerBytes h.lengthIndicators.length ∧
      deserialize (bytes ++ rest) = .ok (h, h.getSerializedSize) := by
  obtain ⟨sn, es, lis, fi⟩ := h
  obtain ⟨hes, hlis, hsn, hfi⟩ := hw
  have hsize := WellFormed.getSerializedSize ⟨hes, hlis, hsn, hfi⟩
  dsimp only at hes hlis hsn hfi hsize
  rw [hsize]
  rw [← bitBefore_cons_bitsAmong] at hes
  subst hes
  have hE := bitBefore_lt lis.length
  have h1 := toNat_ofNat_of_lt
    (show fi % 4 * 2 ^ 3 + (bitBefore lis.length % 2 * 2 ^ 2 + sn / 256 % 4) < 256 by omega)
  have h2 := toNat_ofNat_of_lt (show sn % 256 < 256 by omega)
  refine ⟨_, rfl, ?_, ?_⟩
  · rw [List.length_cons, List.length_cons, length_serializeLis]
    unfold headerBytes
    dsimp only
    omega
  · simp only [List.cons_append, deserialize, headByte_eq, and_ff, readE2_eq, readFi_eq, h1, h2,
      readSn_eq _ (show sn % 256 < 256 by omega)]
    rw [show (fi % 4 * 2 ^ 3 + (bitBefore lis.length % 2 * 2 ^ 2 + sn / 256 % 4)) / 4 % 2 =
        bitBefore lis.length by omega,
      show (fi % 4 * 2 ^ 3 + (bitBefore lis.length % 2 * 2 ^ 2 + sn / 256 % 4)) / 8 % 4 = fi by
        omega,
      show ((fi % 4 * 2 ^ 3 + (bitBefore lis.length % 2 * 2 ^ 2 + sn / 256 % 4)) % 4 * 2 ^ 8 +
        sn % 256) % 1024 = sn by omega]
    cases lis with
    | nil => rfl
    | cons li lis =>
        have hE1 : bitBefore (li :: lis).length = 1 := rfl
        rw [if_neg (by omega),
          deserializeLis_serializeLis rest 2 _ (List.cons_ne_nil li lis) hlis]
        simp only [List.cons_append, List.nil_append, headerBytes, Nat.add_assoc]

/-! ### What is accepted -/

/-- The header in the loop of `Deserialize`: the length indicators are read in pairs, and the next
one is announced. -/
structure Announced (h : NrRlcHeader) (n : ℕ) : Prop where
  extensionBits : h.extensionBits = List.replicate (h.lengthIndicators.length + 1) 1
  even : h.lengthIndicators.length % 2 = 0
  lengthIndicators : ∀ li ∈ h.lengthIndicators, li.toNat < 2048
  sequenceNumber : h.sequenceNumber < 1024
  framingInfo : h.framingInfo < 4
  size : n = (2 + h.lengthIndicators.length + h.lengthIndicators.length / 2) % 2 ^ 16

theorem toNat_ofNat_lt {n : ℕ} (h : n < 2048) : (UInt16.ofNat n).toNat < 2048 := by
  rw [UInt16.toNat_ofNat', Nat.mod_eq_of_lt (by omega)]
  exact h

theorem forall_mem_concat {lis : List UInt16} {li : UInt16} (hlis : ∀ x ∈ lis, x.toNat < 2048)
    (hli : li.toNat < 2048) : ∀ x ∈ lis ++ [li], x.toNat < 2048 := by
  intro x hx
  rcases List.mem_append.mp hx with hx | hx
  · exact hlis x hx
  · rw [List.mem_singleton.mp hx]
    exact hli

theorem Announced.push_zero {n : ℕ} (ha : h.Announced n) {x : ℕ} (hx : x < 2048) :
    (h.push 0 (UInt16.ofNat x)).WellFormed ∧
      (h.push 0 (UInt16.ofNat x)).getSerializedSize = (n + 2) % 2 ^ 16 := by
  have hw : (h.push 0 (UInt16.ofNat x)).WellFormed := by
    refine ⟨?_, forall_mem_concat ha.lengthIndicators (toNat_ofNat_lt hx), ha.sequenceNumber,
      ha.framingInfo⟩
    simp only [push, ha.extensionBits, List.length_append, List.length_singleton]
  refine ⟨hw, ?_⟩
  have heven := ha.even
  rw [hw.getSerializedSize, ha.size]
  simp only [push, headerBytes, List.length_append, List.length_singleton]
  omega

/-- A pair of length indicators, the last of the header or not. -/
theorem Announced.push_pair {n : ℕ} (ha : h.Announced n) {x y : ℕ} (hx : x < 2048)
    (hy : y < 2048) :
    ((h.push 1 (UInt16.ofNat x)).push 1 (UInt16.ofNat y)).Announced ((n + 3) % 2 ^ 16) ∧
      ((h.push 1 (UInt16.ofNat x)).push 0 (UInt16.ofNat y)).WellFormed ∧
        ((h.push 1 (UInt16.ofNat x)).push 0 (UInt16.ofNat y)).getSerializedSize =
          (n + 3) % 2 ^ 16 := by
  have hlis : ∀ li ∈ h.lengthIndicators ++ [UInt16.ofNat x] ++ [UInt16.ofNat y],
      li.toNat < 2048 :=
    forall_mem_concat (forall_mem_concat ha.lengthIndicators (toNat_ofNat_lt hx))
      (toNat_ofNat_lt hy)
  have heven := ha.even
  have hw : ((h.push 1 (UInt16.ofNat x)).push 0 (UInt16.ofNat y)).WellFormed := by
    refine ⟨?_, hlis, ha.sequenceNumber, ha.framingInfo⟩
    simp only [push, ha.extensionBits, List.length_append, List.length_singleton,
      List.replicate_succ', List.append_assoc]
  refine ⟨⟨?_, ?_, hlis, ha.sequenceNumber, ha.framingInfo, ?_⟩, hw, ?_⟩
  · simp only [push, ha.extensionBits, List.length_append, List.length_singleton,
      List.replicate_succ', List.append_assoc]
  · simp only [push, List.length_append, List.length_singleton]
    omega
  · rw [ha.size]
    simp only [push, List.length_append, List.length_singleton]
    omega
  · rw [hw.getSerializedSize, ha.size]
    simp only [push, headerBytes, List.length_append, List.length_singleton]
    omega

/-- What the loop of `Deserialize` accepts. -/
theorem deserializeLis_wellFormed {h' : NrRlcHeader} {n' : ℕ} : ∀ (bytes : List UInt8)
    {h : NrRlcHeader} {n : ℕ}, h.Announced n → deserializeLis h n bytes = .ok (h', n') →
      h'.WellFormed ∧ n' = h'.getSerializedSize ∧ n' ≤ n + bytes.length
  | [], _, _, _, heq => by simp [deserializeLis] at heq
  | [_], _, _, _, heq => by simp [deserializeLis] at heq
  | byte1 :: byte2 :: bytes, h, n, ha, heq => by
      obtain hE | hE : byte1.toNat / 128 % 2 = 0 ∨ byte1.toNat / 128 % 2 = 1 := by omega
      · rw [deserializeLis_last h n byte2 bytes hE] at heq
        cases heq
        obtain ⟨hw, hsize⟩ := ha.push_zero
          (show byte1.toNat % 128 * 2 ^ 4 + byte2.toNat / 16 % 16 < 2048 by omega)
        refine ⟨hw, hsize.symm, ?_⟩
        simp only [List.length_cons]
        omega
      · cases bytes with
        | nil => simp [deserializeLis, readE7_eq, hE] at heq
        | cons byte3 bytes =>
            obtain ⟨hmore, hw, hsize⟩ := ha.push_pair
              (show byte1.toNat % 128 * 2 ^ 4 + byte2.toNat / 16 % 16 < 2048 by omega)
              (show byte2.toNat % 8 * 2 ^ 8 + byte3.toNat % 256 < 2048 by omega)
            rw [deserializeLis_pair h n byte2 byte3 bytes hE] at heq
            split at heq
            · obtain ⟨h1, h2, h3⟩ := deserializeLis_wellFormed bytes hmore heq
              refine ⟨h1, h2, ?_⟩
              simp only [List.length_cons]
              omega
            · cases heq
              refine ⟨hw, hsize.symm, ?_⟩
              simp only [List.length_cons]
              omega

/-- **What is accepted is well formed**, and the header lies within the packet. -/
theorem deserialize_wellFormed {bytes : List UInt8} {n : ℕ} (heq : deserialize bytes = .ok (h, n)) :
    h.WellFormed ∧ n = h.getSerializedSize ∧ n ≤ bytes.length := by
  match bytes with
  | [] => simp [deserialize] at heq
  | [_] => simp [deserialize] at heq
  | byte1 :: byte2 :: bytes =>
      have hsn := Nat.mod_lt (((byte1.toNat &&& 0x03) <<< 8) ||| byte2.toNat)
        (show 0 < 1024 by omega)
      have hfi : (byte1.toNat &&& 0x18) >>> 3 < 4 := by
        rw [readFi_eq]
        omega
      simp only [deserialize] at heq
      split at heq
      · next hE =>
          cases heq
          refine ⟨⟨by rw [hE]; rfl, fun _ hli => ?_, hsn, hfi⟩, rfl, by simp⟩
          exact absurd hli List.not_mem_nil
      · next hE =>
          have hE1 : (byte1.toNat &&& 0x04) >>> 2 = 1 := by
            rw [readE2_eq] at hE ⊢
            omega
          have ha : Announced
              { framingInfo := (byte1.toNat &&& 0x18) >>> 3
                sequenceNumber := (((byte1.toNat &&& 0x03) <<< 8) ||| byte2.toNat) % 1024
                extensionBits := [(byte1.toNat &&& 0x04) >>> 2] } 2 :=
            ⟨by rw [hE1]; rfl, rfl, fun _ hli => absurd hli List.not_mem_nil, hsn, hfi, by simp⟩
          obtain ⟨h1, h2, h3⟩ := deserializeLis_wellFormed bytes ha heq
          refine ⟨h1, h2, ?_⟩
          simp only [List.length_cons]
          omega

/-- **The codec.** The headers that `Deserialize` returns are the well-formed ones, and these are the
headers that `Serialize` writes and `Deserialize` reads back, whatever follows.  They have as many
bytes as `GetSerializedSize` says, as long as that fits into 16 bits. -/
theorem codec (h : NrRlcHeader) :
    ((∃ bytes n, deserialize bytes = .ok (h, n)) ↔ h.WellFormed) ∧
      ((∀ rest, ∃ bytes, h.serialize = .ok bytes ∧
        deserialize (bytes ++ rest) = .ok (h, h.getSerializedSize)) ↔ h.WellFormed) ∧
      (h.WellFormed → ∃ bytes, h.serialize = .ok bytes ∧
        (bytes.length = h.getSerializedSize ↔ h.lengthIndicators.length < 43689)) := by
  refine ⟨⟨?_, fun hw => ?_⟩, ⟨fun hr => ?_, fun hw rest => ?_⟩, fun hw => ?_⟩
  · rintro ⟨bytes, n, heq⟩
    exact (deserialize_wellFormed heq).1
  · obtain ⟨bytes, -, -, heq⟩ := deserialize_serialize hw []
    exact ⟨_, _, heq⟩
  · obtain ⟨bytes, -, heq⟩ := hr []
    exact (deserialize_wellFormed heq).1
  · obtain ⟨bytes, h1, -, h3⟩ := deserialize_serialize hw rest
    exact ⟨bytes, h1, h3⟩
  · obtain ⟨bytes, h1, h2, -⟩ := deserialize_serialize hw []
    refine ⟨bytes, h1, ?_⟩
    rw [h2, hw.getSerializedSize, ← headerBytes_lt]
    omega

end NrRlcHeader

theorem addHeader_spec {h : NrRlcHeader} (hw : h.WellFormed)
    (hlt : headerBytes h.lengthIndicators.length < 2 ^ 16) (data : List UInt8) :
    ∃ packet, addHeader h data = .ok packet ∧
      packet.length = headerBytes h.lengthIndicators.length + data.length ∧
      peekHeader packet = .ok h ∧ removeHeader packet = .ok (h, data) := by
  obtain ⟨bytes, h1, h2, h3⟩ := NrRlcHeader.deserialize_serialize hw data
  have hsize : bytes.length = h.getSerializedSize := by
    rw [h2, hw.getSerializedSize, Nat.mod_eq_of_lt hlt]
  refine ⟨bytes ++ data, ?_, by rw [List.length_append, h2], ?_, ?_⟩
  · simp only [addHeader, h1, Fallible.ok_bind, Fallible.pure_eq, hsize, ne_eq, not_true_eq_false,
      if_false]
  · simp only [peekHeader, h3, Fallible.ok_bind, Fallible.pure_eq]
  · simp only [removeHeader, h3, Fallible.ok_bind, Fallible.pure_eq, ← hsize, List.drop_left]

end Rbis
