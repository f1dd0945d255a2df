import VNet.Lib.Exec
import VNet.Lib.Maps
import VNet.NetQueue.Queue

namespace VNet.Protocol
open NetQueue

abbrev Text := List Char

structure PacketSwitchMip where
  name : Text
  authKey : Text
  network : Text
  port : UInt32
  deriving DecidableEq, Repr

structure PacketAgentMip where
  name : Text
  authKey : Text
  network : Text
  deriving DecidableEq, Repr

structure PacketConnectToSwitch where
  switchName : Text
  switchIpv4 : UInt32
  connectionToken : UInt64
  switchPort : UInt32
  deriving DecidableEq, Repr

structure PacketAgentConnectionToken where
  agentName : Text
  connectionToken : UInt64
  deriving DecidableEq, Repr

structure PacketAuthConnectToSwitch where
  connectionToken : UInt64
  deriving DecidableEq, Repr

structure PacketConnectionAccepted where
  deriving DecidableEq, Repr

structure PacketAgentMrp where
  name : Text
  authKey : Text
  deriving DecidableEq, Repr

/-- The code protobuf generates for one message. -/
structure MessageCodec (M : Type) where
  serializeToString : M → Option Bytes
  parseFromArray : Bytes → Option M

def MessageCodec.RoundTrips {M : Type} (c : MessageCodec M) : Prop :=
  ∀ m b, c.serializeToString m = some b → c.parseFromArray b = some m

def MessageCodec.ofTable {M : Type} [DecidableEq M] (table : List (M × Bytes)) :
    MessageCodec M where
  serializeToString m := (table.find? fun r => r.1 = m).map Prod.snd
  parseFromArray b := (table.find? fun r => r.2 = b).map Prod.fst

theorem find_encoding {M : Type} {table : List (M × Bytes)}
    (h : table.Pairwise fun r r' => r.2 ≠ r'.2) {r : M × Bytes} (hr : r ∈ table) :
    table.find? (fun r' => r'.2 = r.2) = some r := by
  induction table with
  | nil => simp at hr
  | cons r' table ih =>
    obtain ⟨hne, hrest⟩ := List.pairwise_cons.mp h
    rcases List.mem_cons.mp hr with rfl | htail
    · simp
    · rw [List.find?_cons_of_neg (by simpa using hne r htail)]
      exact ih hrest htail

theorem MessageCodec.ofTable_roundTrips {M : Type} [DecidableEq M] {table : List (M × Bytes)}
    (h : table.Pairwise fun r r' => r.2 ≠ r'.2) : (MessageCodec.ofTable table).RoundTrips := by
  intro m b hser
  simp only [ofTable, Option.map_eq_some_iff] at hser ⊢
  obtain ⟨r, hfind, rfl⟩ := hser
  have hm : r.1 = m := by simpa using List.find?_some hfind
  exact ⟨r, find_encoding h (List.mem_of_find?_eq_some hfind), hm⟩

structure Codec where
  switchMip : MessageCodec PacketSwitchMip
  agentMip : MessageCodec PacketAgentMip
  connectToSwitch : MessageCodec PacketConnectToSwitch
  agentConnectionToken : MessageCodec PacketAgentConnectionToken
  authConnectToSwitch : MessageCodec PacketAuthConnectToSwitch
  connectionAccepted : MessageCodec PacketConnectionAccepted
  agentMrp : MessageCodec PacketAgentMrp

/-- What the programs rely on: messages survive the way from one to the other,
and no bytes at all are the message with every field at its default. -/
structure Codec.Sound (codec : Codec) : Prop where
  switchMip : codec.switchMip.RoundTrips
  agentMip : codec.agentMip.RoundTrips
  connectToSwitch : codec.connectToSwitch.RoundTrips
  agentConnectionToken : codec.agentConnectionToken.RoundTrips
  authConnectToSwitch : codec.authConnectToSwitch.RoundTrips
  connectToSwitch_empty : codec.connectToSwitch.parseFromArray [] = some ⟨[], 0, 0, 0⟩

/-- The generated code on the messages of one agent that joins one switch. -/
def Codec.sample : Codec where
  switchMip := .ofTable [(⟨"s1".toList, "k".toList, "::internet".toList, 7000⟩,
    [0x0a, 2, 0x73, 0x31, 0x12, 1, 0x6b, 0x1a, 10, 0x3a, 0x3a, 0x69, 0x6e, 0x74, 0x65, 0x72, 0x6e,
      0x65, 0x74, 0x20, 0xd8, 0x36])]
  agentMip := .ofTable [(⟨"a".toList, "k".toList, "vnet.internal".toList⟩,
    [0x0a, 1, 0x61, 0x12, 1, 0x6b, 0x1a, 13, 0x76, 0x6e, 0x65, 0x74, 0x2e, 0x69, 0x6e, 0x74, 0x65,
      0x72, 0x6e, 0x61, 0x6c])]
  connectToSwitch := .ofTable [(⟨[], 0, 0, 0⟩, []), (⟨"s1".toList, 0x0200000a, 7, 7000⟩,
    [0x0a, 2, 0x73, 0x31, 0x15, 10, 0, 0, 2, 0x19, 7, 0, 0, 0, 0, 0, 0, 0, 0x20, 0xd8, 0x36])]
  agentConnectionToken := .ofTable [(⟨"a".toList, 7⟩,
    [0x0a, 1, 0x61, 0x11, 7, 0, 0, 0, 0, 0, 0, 0])]
  authConnectToSwitch := .ofTable [(⟨7⟩, [0x09, 7, 0, 0, 0, 0, 0, 0, 0])]
  connectionAccepted := .ofTable [(⟨⟩, [])]
  agentMrp := .ofTable [(⟨"a".toList, "k".toList⟩, [0x0a, 1, 0x61, 0x12, 1, 0x6b])]

theorem Codec.sample_sound : Codec.sample.Sound where
  switchMip := MessageCodec.ofTable_roundTrips (by simp)
  agentMip := MessageCodec.ofTable_roundTrips (by simp)
  connectToSwitch := MessageCodec.ofTable_roundTrips (by simp)
  agentConnectionToken := MessageCodec.ofTable_roundTrips (by simp)
  authConnectToSwitch := MessageCodec.ofTable_roundTrips (by simp)
  connectToSwitch_empty := by decide

variable {σ φ : Type}

/-- The virtual methods of `Dispatch`; those not overridden do nothing. -/
structure Dispatch (σ φ : Type) where
  onClose : CloseData → Exec σ φ Unit := fun _ => pure ()
  onTunReady : TunData → Exec σ φ Unit := fun _ => pure ()
  onHeartbeat : SocketData → Exec σ φ Unit := fun _ => pure ()
  onSwitchMip : SocketData → PacketSwitchMip → Exec σ φ Unit := fun _ _ => pure ()
  onAgentMip : SocketData → PacketAgentMip → Exec σ φ Unit := fun _ _ => pure ()
  onConnectToSwitch : SocketData → PacketConnectToSwitch → Exec σ φ Unit := fun _ _ => pure ()
  onAuthConnectToSwitch : SocketData → PacketAuthConnectToSwitch → Exec σ φ Unit :=
    fun _ _ => pure ()
  onAgentConnectionToken : SocketData → PacketAgentConnectionToken → Exec σ φ Unit :=
    fun _ _ => pure ()
  onConnectionAccepted : SocketData → PacketConnectionAccepted → Exec σ φ Unit :=
    fun _ _ => pure ()
  onAgentMrp : SocketData → PacketAgentMrp → Exec σ φ Unit := fun _ _ => pure ()

def MessageCodec.ifParsed {M : Type} (c : MessageCodec M) (data : SocketData)
    (handler : SocketData → M → Exec σ φ Unit) : Exec σ φ Unit :=
  match c.parseFromArray data.packetBuffer with
  | some packet => handler data packet
  | none => pure ()

/-- A packet whose method is not overridden changes nothing, parsed or not. -/
@[simp] theorem MessageCodec.ifParsed_nothing {M : Type} (c : MessageCodec M) (data : SocketData) :
    c.ifParsed data (fun _ _ => pure ()) = (pure () : Exec σ φ Unit) := by
  unfold ifParsed
  split <;> rfl

/-- `Dispatch::onSocketReady`: only the type of the packet decides which method
is called, not the connection it came on. -/
def Dispatch.onSocketReady (codec : Codec) (d : Dispatch σ φ) (data : SocketData) :
    Exec σ φ Unit :=
  match data.packetType with
  | .heartbeat => d.onHeartbeat data
  | .switchMip => codec.switchMip.ifParsed data d.onSwitchMip
  | .agentMip => codec.agentMip.ifParsed data d.onAgentMip
  | .connectToSwitch => codec.connectToSwitch.ifParsed data d.onConnectToSwitch
  | .agentConnectionToken => codec.agentConnectionToken.ifParsed data d.onAgentConnectionToken
  | .authConnectToSwitch => codec.authConnectToSwitch.ifParsed data d.onAuthConnectToSwitch
  | .connectionAccepted => codec.connectionAccepted.ifParsed data d.onConnectionAccepted
  | .agentMrp => codec.agentMrp.ifParsed data d.onAgentMrp
  | .other _ _ => pure ()

end VNet.Protocol
