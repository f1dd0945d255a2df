import Mathlib.Algebra.Group.Nat.Defs
import Mathlib.Data.List.GetD
import Mathlib.Tactic.Common
import VNet.Lib.Framing

namespace VNet.Protocol

abbrev Bytes := List UInt8

/-- `PacketType`. The wire carries any 16-bit value; those without a name are
kept as they came. -/
inductive PacketType
  | heartbeat
  | switchMip
  | agentMip
  | connectToSwitch
  | agentConnectionToken
  | authConnectToSwitch
  | connectionAccepted
  | agentMrp
  | other (value : UInt16) (h : 7 < value)
  deriving DecidableEq, Repr

namespace PacketType

def value : PacketType → UInt16
  | heartbeat => 0
  | switchMip => 1
  | agentMip => 2
  | connectToSwitch => 3
  | agentConnectionToken => 4
  | authConnectToSwitch => 5
  | connectionAccepted => 6
  | agentMrp => 7
  | other v _ => v

def ofValue (v : UInt16) : PacketType :=
  if h : 7 < v then other v h
  else if v = 0 then heartbeat
  else if v = 1 then switchMip
  else if v = 2 then agentMip
  else if v = 3 then connectToSwitch
  else if v = 4 then agentConnectionToken
  else if v = 5 then authConnectToSwitch
  else if v = 6 then connectionAccepted
  else agentMrp

@[simp] theorem ofValue_value (t : PacketType) : ofValue t.value = t := by
  cases t with
  | other v h => simp [ofValue, value, h]
  | _ => rfl

end PacketType

/-- Byte `i` of a memory area, zero beyond the bytes stored in it. -/
def byteAt (mem : Bytes) (i : ℕ) : ℕ := (mem.getD i 0).toNat

/-- `htonl`: the four bytes in memory, most significant first. -/
def htonl (n : UInt32) : Bytes :=
  [.ofNat (n.toNat / 2 ^ 24), .ofNat (n.toNat / 2 ^ 16), .ofNat (n.toNat / 2 ^ 8), .ofNat n.toNat]

def ntohl (mem : Bytes) : UInt32 :=
  .ofNat (byteAt mem 0 * 2 ^ 24 + byteAt mem 1 * 2 ^ 16 + byteAt mem 2 * 2 ^ 8 + byteAt mem 3)

def htonPacketType (t : PacketType) : Bytes :=
  [.ofNat (t.value.toNat / 2 ^ 8), .ofNat t.value.toNat]

def ntohPacketType (mem : Bytes) : PacketType :=
  .ofValue (.ofNat (byteAt mem 0 * 2 ^ 8 + byteAt mem 1))

def packetHeaderSize : ℕ := 6

/-- `PacketHeader(payload_size, packet_type)` as it lies in memory. -/
def packetHeader (payloadSize : UInt32) (packetType : PacketType) : Bytes :=
  htonl payloadSize ++ htonPacketType packetType

def getPayloadSize (mem : Bytes) : UInt32 := ntohl mem

def getPacketType (mem : Bytes) : PacketType := ntohPacketType (mem.drop 4)

def frame (packetType : PacketType) (body : Bytes) : Bytes :=
  packetHeader (.ofNat body.length) packetType ++ body

theorem ntohl_htonl (n : UInt32) (rest : Bytes) : ntohl (htonl n ++ rest) = n := by
  have hn := n.toNat_lt
  apply UInt32.toNat_inj.mp
  simp only [ntohl, htonl, byteAt, List.cons_append, List.getD_cons_zero, List.getD_cons_succ,
    UInt8.toNat_ofNat', UInt32.toNat_ofNat']
  omega

theorem ntohPacketType_hton (t : PacketType) (rest : Bytes) :
    ntohPacketType (htonPacketType t ++ rest) = t := by
  have ht := t.value.toNat_lt
  have hv : UInt16.ofNat
      (t.value.toNat / 2 ^ 8 % 2 ^ 8 * 2 ^ 8 + t.value.toNat % 2 ^ 8) = t.value := by
    apply UInt16.toNat_inj.mp
    rw [UInt16.toNat_ofNat']
    omega
  simp only [ntohPacketType, htonPacketType, byteAt, List.cons_append, List.getD_cons_zero,
    List.getD_cons_succ, UInt8.toNat_ofNat', hv, PacketType.ofValue_value]

@[simp] theorem packetHeader_length (n : UInt32) (t : PacketType) :
    (packetHeader n t).length = packetHeaderSize := rfl

theorem getPayloadSize_packetHeader (n : UInt32) (t : PacketType) (rest : Bytes) :
    getPayloadSize (packetHeader n t ++ rest) = n := by
  rw [getPayloadSize, packetHeader, List.append_assoc, ntohl_htonl]

theorem getPacketType_packetHeader (n : UInt32) (t : PacketType) (rest : Bytes) :
    getPacketType (packetHeader n t ++ rest) = t :=
  ntohPacketType_hton t rest

theorem byteAt_append (a b : Bytes) {i : ℕ} (hi : i < a.length) :
    byteAt (a ++ b) i = byteAt a i := by
  rw [byteAt, byteAt, List.getD_append _ _ _ _ hi]

/-- Only the header decides the size: bytes after it do not matter. -/
theorem getPayloadSize_append (a b : Bytes) (ha : packetHeaderSize ≤ a.length) :
    getPayloadSize (a ++ b) = getPayloadSize a := by
  unfold packetHeaderSize at ha
  simp only [getPayloadSize, ntohl]
  rw [byteAt_append a b (by omega), byteAt_append a b (by omega), byteAt_append a b (by omega),
    byteAt_append a b (by omega)]

theorem getPacketType_append (a b : Bytes) (ha : packetHeaderSize ≤ a.length) :
    getPacketType (a ++ b) = getPacketType a := by
  unfold packetHeaderSize at ha
  have hd : (a ++ b).drop 4 = a.drop 4 ++ b := List.drop_append_of_le_length (by omega)
  have hl : 2 ≤ (a.drop 4).length := by rw [List.length_drop]; omega
  simp only [getPacketType, ntohPacketType, hd]
  rw [byteAt_append _ b (by omega), byteAt_append _ b (by omega)]

/-- The wire format of `PacketHeader` as a length-prefixed framing. -/
def framing : LengthFraming UInt8 where
  headerLen := packetHeaderSize
  size mem := (getPayloadSize mem).toNat
  headerLen_pos := by decide
  size_append a b ha := by rw [getPayloadSize_append a b ha]

def packet (f : Bytes) : PacketType × Bytes := (getPacketType f, f.drop packetHeaderSize)

theorem frame_isFrame (t : PacketType) (body : Bytes) (hb : body.length < 2 ^ 32) :
    framing.IsFrame (frame t body) := by
  simp only [LengthFraming.IsFrame, framing, frame, getPayloadSize_packetHeader,
    List.length_append, packetHeader_length, UInt32.toNat_ofNat', Nat.mod_eq_of_lt hb]

theorem packet_frame (t : PacketType) (body : Bytes) : packet (frame t body) = (t, body) := by
  simp only [packet, frame, getPacketType_packetHeader]
  rfl

theorem PacketType.value_ofValue (v : UInt16) : (PacketType.ofValue v).value = v := by
  unfold PacketType.ofValue
  split_ifs with hv h0 h1 h2 h3 h4 h5 h6
  · rfl
  · exact h0.symm
  · exact h1.symm
  · exact h2.symm
  · exact h3.symm
  · exact h4.symm
  · exact h5.symm
  · exact h6.symm
  · change 7 = v
    grind

theorem htonl_ntohl (a b c d : UInt8) (rest : Bytes) :
    htonl (ntohl (a :: b :: c :: d :: rest)) = [a, b, c, d] := by
  have ha := a.toNat_lt
  have hb := b.toNat_lt
  have hc := c.toNat_lt
  have hd := d.toNat_lt
  simp only [htonl, ntohl, byteAt, List.getD_cons_zero, List.getD_cons_succ, UInt32.toNat_ofNat',
    List.cons.injEq, ← UInt8.toNat_inj, UInt8.toNat_ofNat', and_true]
  omega

theorem htonPacketType_ntoh (a b : UInt8) (rest : Bytes) :
    htonPacketType (ntohPacketType (a :: b :: rest)) = [a, b] := by
  have ha := a.toNat_lt
  have hb := b.toNat_lt
  simp only [htonPacketType, ntohPacketType, PacketType.value_ofValue, byteAt, List.getD_cons_zero,
    List.getD_cons_succ, UInt16.toNat_ofNat', List.cons.injEq, ← UInt8.toNat_inj,
    UInt8.toNat_ofNat', and_true]
  omega

/-- Nothing but the frame of its packet is a frame. -/
theorem frame_packet {f : Bytes} (hf : framing.IsFrame f) :
    frame (packet f).1 (packet f).2 = f := by
  have hlen : f.length = packetHeaderSize + (getPayloadSize f).toNat := hf
  unfold packetHeaderSize at hlen
  obtain ⟨a, f, rfl⟩ := List.exists_cons_of_length_pos (show 0 < f.length by omega)
  obtain ⟨b, f, rfl⟩ := List.exists_cons_of_length_pos (show 0 < f.length by grind)
  obtain ⟨c, f, rfl⟩ := List.exists_cons_of_length_pos (show 0 < f.length by grind)
  obtain ⟨d, f, rfl⟩ := List.exists_cons_of_length_pos (show 0 < f.length by grind)
  obtain ⟨x, f, rfl⟩ := List.exists_cons_of_length_pos (show 0 < f.length by grind)
  obtain ⟨y, body, rfl⟩ := List.exists_cons_of_length_pos (show 0 < f.length by grind)
  have hbody : body.length = (getPayloadSize (a :: b :: c :: d :: x :: y :: body)).toNat := by
    simp only [List.length_cons] at hlen
    omega
  change packetHeader (.ofNat body.length) (ntohPacketType (x :: y :: body)) ++ body = _
  rw [hbody, UInt32.ofNat_toNat, packetHeader, getPayloadSize, htonl_ntohl, htonPacketType_ntoh]
  rfl

end VNet.Protocol
