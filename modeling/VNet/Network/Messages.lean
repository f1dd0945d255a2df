import VNet.Common.SocketUtils
import VNet.NetQueue.Link
import VNet.Server

namespace VNet.Protocol
open NetQueue

/-- What the programs say to each other: heartbeats, and the messages of `mip.proto`. -/
inductive Message
  | heartbeat
  | switchMip (packet : PacketSwitchMip)
  | agentMip (packet : PacketAgentMip)
  | connectToSwitch (packet : PacketConnectToSwitch)
  | agentConnectionToken (packet : PacketAgentConnectionToken)
  | authConnectToSwitch (packet : PacketAuthConnectToSwitch)
  | connectionAccepted (packet : PacketConnectionAccepted)
  | agentMrp (packet : PacketAgentMrp)
  deriving DecidableEq, Repr

namespace Message

def packetType : Message → PacketType
  | heartbeat => .heartbeat
  | switchMip _ => .switchMip
  | agentMip _ => .agentMip
  | connectToSwitch _ => .connectToSwitch
  | agentConnectionToken _ => .agentConnectionToken
  | authConnectToSwitch _ => .authConnectToSwitch
  | connectionAccepted _ => .connectionAccepted
  | agentMrp _ => .agentMrp

def body (codec : Codec) : Message → Option Bytes
  | heartbeat => some []
  | switchMip packet => codec.switchMip.serializeToString packet
  | agentMip packet => codec.agentMip.serializeToString packet
  | connectToSwitch packet => codec.connectToSwitch.serializeToString packet
  | agentConnectionToken packet => codec.agentConnectionToken.serializeToString packet
  | authConnectToSwitch packet => codec.authConnectToSwitch.serializeToString packet
  | connectionAccepted packet => codec.connectionAccepted.serializeToString packet
  | agentMrp packet => codec.agentMrp.serializeToString packet

def handler {σ φ : Type} (d : Dispatch σ φ) (data : SocketData) : Message → Exec σ φ Unit
  | heartbeat => d.onHeartbeat data
  | switchMip packet => d.onSwitchMip data packet
  | agentMip packet => d.onAgentMip data packet
  | connectToSwitch packet => d.onConnectToSwitch data packet
  | agentConnectionToken packet => d.onAgentConnectionToken data packet
  | authConnectToSwitch packet => d.onAuthConnectToSwitch data packet
  | connectionAccepted packet => d.onConnectionAccepted data packet
  | agentMrp packet => d.onAgentMrp data packet

def sendOp (codec : Codec) (rs : List WriteResult) : Message → SendOp
  | heartbeat => .heartbeat rs
  | m => .message m.packetType (m.body codec) rs

end Message

/-- Every message is parsed back as it was. -/
structure Codec.Lossless (codec : Codec) : Prop where
  switchMip : codec.switchMip.RoundTrips
  agentMip : codec.agentMip.RoundTrips
  connectToSwitch : codec.connectToSwitch.RoundTrips
  agentConnectionToken : codec.agentConnectionToken.RoundTrips
  authConnectToSwitch : codec.authConnectToSwitch.RoundTrips
  connectionAccepted : codec.connectionAccepted.RoundTrips
  agentMrp : codec.agentMrp.RoundTrips

theorem Codec.sample_lossless : Codec.sample.Lossless where
  switchMip := MessageCodec.ofTable_roundTrips (by simp)
  agentMip := MessageCodec.ofTable_roundTrips (by simp)
  connectToSwitch := MessageCodec.ofTable_roundTrips (by simp)
  agentConnectionToken := MessageCodec.ofTable_roundTrips (by simp)
  authConnectToSwitch := MessageCodec.ofTable_roundTrips (by simp)
  connectionAccepted := MessageCodec.ofTable_roundTrips (by simp)
  agentMrp := MessageCodec.ofTable_roundTrips (by simp)

section
variable {σ φ : Type} {codec : Codec}

theorem MessageCodec.ifParsed_serialized {M : Type} {c : MessageCodec M} (hc : c.RoundTrips)
    {packet : M} {data : SocketData} (h : c.serializeToString packet = some data.packetBuffer)
    (f : SocketData → M → Exec σ φ Unit) : c.ifParsed data f = f data packet := by
  rw [ifParsed, hc packet _ h]

/-- The packet of a message is handed to the method that is for it, as that message. -/
theorem Dispatch.onSocketReady_message (hcodec : codec.Lossless) (d : Dispatch σ φ) {m : Message}
    {data : SocketData} (htype : data.packetType = m.packetType)
    (hbody : m.body codec = some data.packetBuffer) :
    d.onSocketReady codec data = m.handler d data := by
  unfold onSocketReady
  rw [htype]
  cases m with
  | heartbeat => rfl
  | switchMip packet => exact MessageCodec.ifParsed_serialized hcodec.switchMip hbody _
  | agentMip packet => exact MessageCodec.ifParsed_serialized hcodec.agentMip hbody _
  | connectToSwitch packet => exact MessageCodec.ifParsed_serialized hcodec.connectToSwitch hbody _
  | agentConnectionToken packet =>
    exact MessageCodec.ifParsed_serialized hcodec.agentConnectionToken hbody _
  | authConnectToSwitch packet =>
    exact MessageCodec.ifParsed_serialized hcodec.authConnectToSwitch hbody _
  | connectionAccepted packet =>
    exact MessageCodec.ifParsed_serialized hcodec.connectionAccepted hbody _
  | agentMrp packet => exact MessageCodec.ifParsed_serialized hcodec.agentMrp hbody _

end

end VNet.Protocol

namespace VNet.Common
open Protocol NetQueue

def sendHeartbeat (rs : List WriteResult) : RawOutcome := writeNBytes rs (packetHeader 0 .heartbeat)

def sendDirect (codec : Codec) (rs : List WriteResult) : Message → RawOutcome
  | .heartbeat => sendHeartbeat rs
  | m => sendProtobufPacket rs m.packetType (m.body codec)

theorem sendDirect_accepted {codec : Codec} {rs : List WriteResult} {m : Message}
    (h : (sendDirect codec rs m).returned = some true) :
    ∃ b, m.body codec = some b ∧ (sendDirect codec rs m).accepted = frame m.packetType b := by
  cases m with
  | heartbeat => exact ⟨[], rfl, writeNBytes_accepted h⟩
  | _ => exact sendProtobufPacket_accepted h

end VNet.Common

namespace VNet.Network
open Protocol NetQueue Common

/-- A call at the sending end, or a pass of `process` at the receiving one. -/
inductive ChannelEvent
  | send (m : Message) (rs : List WriteResult)
  | sendDirect (m : Message) (rs : List WriteResult)
  | flush (rs : List WriteResult)
  | pass (a : Arrival)
  deriving DecidableEq, Repr

def ChannelEvent.given : ChannelEvent → Option Message
  | send m _ => some m
  | sendDirect m _ => some m
  | flush _ => none
  | pass _ => none

def direct (l : Link) (o : RawOutcome) : Link :=
  { l with
    sender := { l.sender with kernel := l.sender.kernel ++ o.accepted }
    receiver := l.receiver.extend o.accepted }

variable (codec : Codec)

def channelStep (l : Link) : ChannelEvent → Link
  | .send m rs => l.step (.call (m.sendOp codec rs))
  | .sendDirect m rs => direct l (Common.sendDirect codec rs m)
  | .flush rs => l.step (.call (.flush rs))
  | .pass a => l.step (.pass a)

def channelRun (l : Link) (es : List ChannelEvent) : Link := Runs.run (channelStep codec) l es

def Fits (m : Message) : Prop := ∀ b ∈ m.body codec, b.length ≤ payloadMax

instance (m : Message) : Decidable (Fits codec m) :=
  inferInstanceAs (Decidable (∀ b ∈ m.body codec, b.length ≤ payloadMax))

/-- Calls return true and send what a receiver can hold, and those past the queue
find its write buffer empty; reads meet the stream or `EAGAIN`. -/
def Reliable (l : Link) : ChannelEvent → Prop
  | .send m rs => ((m.sendOp codec rs).outcome l.sender.element).returned = some true ∧
      Fits codec m
  | .sendDirect m rs => (Common.sendDirect codec rs m).returned = some true ∧ Fits codec m ∧
      l.sender.element.writeBuffer = []
  | .flush rs => ((SendOp.flush rs).outcome l.sender.element).returned = some true
  | .pass a => a ≠ .broken

instance (l : Link) : ∀ e, Decidable (Reliable codec l e)
  | .send _ _ => inferInstanceAs (Decidable (_ ∧ _))
  | .sendDirect _ _ => inferInstanceAs (Decidable (_ ∧ _ ∧ _))
  | .flush _ => inferInstanceAs (Decidable (_ = _))
  | .pass _ => inferInstanceAs (Decidable (_ ≠ _))

variable {codec}

def wire (codec : Codec) (m : Message) : PacketType × Bytes :=
  (m.packetType, (m.body codec).getD [])

def arrived (codec : Codec) (fd : Fd) (ptr : ℕ) (m : Message) : SocketData :=
  Server.packetData fd ptr m.packetType ((m.body codec).getD [])

structure Addressed (fd : Fd) (ptr : ℕ) (c : Conn) : Prop where
  fd_eq : c.element.fd = fd
  ptr_eq : c.element.ptr = ptr
  data_fd : ∀ d ∈ c.delivered, d.fd = fd ∧ d.ptrData = ptr

/-- The two ends of a connection on which these messages were sent. -/
structure Carries (codec : Codec) (fd : Fd) (ptr : ℕ) (l : Link) (sent : List Message) : Prop where
  link : l.Inv (sent.map (wire codec))
  serialized : ∀ m ∈ sent, ∃ b, m.body codec = some b
  addressed : Addressed fd ptr l.receiver

variable {fd : Fd} {ptr : ℕ} {l : Link} {sent : List Message} {m : Message}
  {rs : List WriteResult}

theorem sendOp_given (m : Message) :
    (m.sendOp codec rs).given = (m.body codec).map (m.packetType, ·) := by
  cases m <;> rfl

/-- A message that was sent was serialized. -/
theorem serialized_of_sent {e : NetworkElement}
    (h : ((m.sendOp codec rs).outcome e).returned = some true) : ∃ b, m.body codec = some b := by
  cases hb : m.body codec with
  | some b => exact ⟨b, rfl⟩
  | none =>
    cases m with
    | heartbeat => simp [Message.body] at hb
    | _ => simp [Message.sendOp, SendOp.outcome, hb, sendMessage] at h

theorem fdPtr_ignoresReads : IgnoresReads fun e : NetworkElement => (e.fd, e.ptr) :=
  fun _ _ _ _ => rfl

theorem Addressed.pass {s : Bytes} {c : Conn} (h : Addressed fd ptr c) (hr : Received s c)
    (a : Arrival) : Addressed fd ptr (c.pass a).2 := by
  have hsame : ∀ e : NetworkElement, (e.fd, e.ptr) = (c.element.fd, c.element.ptr) →
      e.fd = fd ∧ e.ptr = ptr := by
    intro e he
    obtain ⟨hfd, hptr⟩ := Prod.mk.inj he
    exact ⟨hfd.trans h.fd_eq, hptr.trans h.ptr_eq⟩
  cases hst : c.element.state with
  | sckHeader =>
    cases hread : c.socket.read (packetHeaderSize - c.element.netBufferUsed) a with
    | mk r socket =>
      rw [Conn.pass_read (processPass_header hst) hread]
      obtain ⟨hfd, hptr⟩ := hsame _ (headerRead_keeps fdPtr_ignoresReads c.element r)
      exact ⟨hfd, hptr, h.data_fd⟩
  | sckPayload =>
    cases hread : c.socket.read (bufferSize c.element - c.element.netBufferUsed) a with
    | mk r socket =>
      rw [Conn.pass_read (processPass_payload hst) hread]
      obtain ⟨hfd, hptr⟩ := hsame _ (payloadRead_keeps fdPtr_ignoresReads c.element _ r)
      exact ⟨hfd, hptr, h.data_fd⟩
  | sckReady =>
    rw [Conn.pass_ready hst]
    refine ⟨h.fd_eq, h.ptr_eq, List.forall_mem_append.mpr ⟨h.data_fd, ?_⟩⟩
    exact List.forall_mem_singleton.mpr ⟨h.fd_eq, h.ptr_eq⟩
  | sckError =>
    rw [Conn.pass_stopped (.inl hst)]
    exact h
  | sckEof =>
    rw [Conn.pass_stopped (.inr hst)]
    exact h
  | _ => exact absurd hr.stateOk (by simp [StateOk, hst])

/-- A packet that was handed over, with all its fields. -/
theorem Addressed.data_eq {s : Bytes} {c : Conn} (h : Addressed fd ptr c) (hr : Received s c)
    {d : SocketData} (hd : d ∈ c.delivered) :
    d = Server.packetData fd ptr d.packetType d.packetBuffer := by
  obtain ⟨hpacket, hsize, hfull⟩ := hr.data_eq d hd
  have hframe := hr.isFrame d hd
  obtain ⟨hfd, hptr⟩ := h.data_fd d hd
  have hbytes : d.fullBuffer = frame d.packetType d.packetBuffer := by
    have hf := frame_packet hframe
    rw [← hpacket] at hf
    exact hf.symm
  have hlen : d.fullBuffer.length = packetHeaderSize + d.payloadSize := by
    rw [hsize]
    exact hframe
  have hpayload : d.payloadSize = d.packetBuffer.length := by
    rw [hbytes, frame, List.length_append, packetHeader_length] at hlen
    omega
  have hfullSize : d.fullBufferSize = (frame d.packetType d.packetBuffer).length := by
    rw [← hbytes, hlen, hfull, Nat.add_comm]
  cases d
  simp only [Server.packetData, SocketData.mk.injEq, true_and]
  exact ⟨hfd, hptr, hpayload, hbytes, hfullSize⟩

theorem Carries.start (codec : Codec) (fd : Fd) (ptr : ℕ) (fd' : Fd) (ptr' : ℕ) :
    Carries codec fd' ptr' (.start fd ptr fd' ptr') [] where
  link := .start fd ptr fd' ptr'
  serialized := by simp
  addressed := ⟨rfl, rfl, by simp [Link.start, Conn.start]⟩

theorem wire_eq {b : Bytes} (h : m.body codec = some b) : wire codec m = (m.packetType, b) := by
  rw [wire, h]
  rfl

theorem forall_serialized_concat (h : ∀ m ∈ sent, ∃ b, m.body codec = some b) {b : Bytes}
    (hb : m.body codec = some b) : ∀ m' ∈ sent ++ [m], ∃ b, m'.body codec = some b :=
  List.forall_mem_append.mpr ⟨h, List.forall_mem_singleton.mpr ⟨b, hb⟩⟩

theorem Addressed.extend {c : Conn} (h : Addressed fd ptr c) (bs : Bytes) :
    Addressed fd ptr (c.extend bs) :=
  ⟨h.fd_eq, h.ptr_eq, h.data_fd⟩

theorem Carries.send (h : Carries codec fd ptr l sent) (hok : Reliable codec l (.send m rs)) :
    Carries codec fd ptr (channelStep codec l (.send m rs)) (sent ++ [m]) := by
  obtain ⟨hret, hfits⟩ := hok
  obtain ⟨b, hb⟩ := serialized_of_sent hret
  have hgiven : (m.sendOp codec rs).given = some (wire codec m) := by
    rw [sendOp_given, hb, wire_eq hb]
    rfl
  have hcallOk : Link.Ok l (.call (m.sendOp codec rs)) := by
    refine ⟨hret, fun x hx => ?_⟩
    rw [hgiven, Option.mem_some_iff, wire_eq hb] at hx
    rw [← hx]
    exact hfits b hb
  have hcall := h.link.call hcallOk
  refine ⟨?_, forall_serialized_concat h.serialized hb, h.addressed.extend _⟩
  rw [hgiven, Option.toList_some] at hcall
  rw [List.map_append]
  exact hcall

/-- Written past an empty buffer, a whole frame is next on the wire. -/
theorem Carries.sendDirect (h : Carries codec fd ptr l sent)
    (hok : Reliable codec l (.sendDirect m rs)) :
    Carries codec fd ptr (channelStep codec l (.sendDirect m rs)) (sent ++ [m]) := by
  obtain ⟨hret, hfits, hempty⟩ := hok
  obtain ⟨b, hb, hacc⟩ := sendDirect_accepted hret
  have hpending : l.sender.element.pending = [] := NetworkElement.pending_eq_nil hempty
  have hstream := h.link.stream_eq
  rw [hpending, List.append_nil] at hstream
  refine ⟨⟨h.link.writeOk, ?_, ?_, h.link.received.extend _, h.link.not_error, h.link.stopped⟩,
    forall_serialized_concat h.serialized hb, h.addressed.extend _⟩
  · rw [List.map_append, List.forall_mem_append]
    refine ⟨h.link.fits, List.forall_mem_singleton.mpr ?_⟩
    rw [wire_eq hb]
    exact hfits b hb
  · change (l.sender.kernel ++ (Common.sendDirect codec rs m).accepted) ++
      l.sender.element.pending = _
    rw [hpending, List.append_nil, hacc, hstream, List.map_append, frames_append,
      List.map_singleton, frames_singleton, wire_eq hb]

theorem Carries.flush (h : Carries codec fd ptr l sent) (hok : Reliable codec l (.flush rs)) :
    Carries codec fd ptr (channelStep codec l (.flush rs)) sent := by
  have hflush : Link.Ok l (.call (.flush rs)) := ⟨hok, by simp [SendOp.given]⟩
  have hcall := h.link.call hflush
  rw [SendOp.given, Option.toList_none, List.append_nil] at hcall
  exact ⟨hcall, h.serialized, h.addressed.extend _⟩

theorem Carries.pass (h : Carries codec fd ptr l sent) {a : Arrival}
    (hok : Reliable codec l (.pass a)) :
    Carries codec fd ptr (channelStep codec l (.pass a)) sent :=
  ⟨h.link.pass hok, h.serialized, h.addressed.pass h.link.received a⟩

theorem Carries.step (h : Carries codec fd ptr l sent) {e : ChannelEvent}
    (hok : Reliable codec l e) :
    Carries codec fd ptr (channelStep codec l e) (sent ++ e.given.toList) := by
  cases e with
  | send m rs => exact h.send hok
  | sendDirect m rs => exact h.sendDirect hok
  | flush rs =>
    rw [ChannelEvent.given, Option.toList_none, List.append_nil]
    exact h.flush hok
  | pass a =>
    rw [ChannelEvent.given, Option.toList_none, List.append_nil]
    exact h.pass hok

theorem Carries.run (h : Carries codec fd ptr l sent) {es : List ChannelEvent}
    (hes : Runs.Steps (channelStep codec) (Reliable codec) l es) :
    Carries codec fd ptr (channelRun codec l es) (sent ++ es.filterMap ChannelEvent.given) := by
  induction es generalizing l sent with
  | nil =>
    rw [List.filterMap_nil, List.append_nil]
    exact h
  | cons e es ih =>
    have hrun := ih (h.step hes.1) hes.2
    have hsent : (e :: es).filterMap ChannelEvent.given =
        e.given.toList ++ es.filterMap ChannelEvent.given := by
      cases hg : e.given with
      | none => simp [hg]
      | some m => simp [hg]
    rw [hsent, ← List.append_assoc]
    exact hrun

/-- The callbacks made so far are those of the first messages. -/
theorem Carries.delivered (h : Carries codec fd ptr l sent) :
    ∃ done rest, sent = done ++ rest ∧ l.receiver.delivered = done.map (arrived codec fd ptr) ∧
      (l.Settled → rest = []) := by
  obtain ⟨rest, hsent, -⟩ := h.link.remaining
  obtain ⟨done, more, rfl, hdone, rfl⟩ := List.map_eq_append_iff.mp hsent
  refine ⟨done, more, rfl, ?_, fun hsettled => ?_⟩
  · have hdata : l.receiver.delivered = l.receiver.packets.map fun x =>
        Server.packetData fd ptr x.1 x.2 := by
      rw [Conn.packets, List.map_map]
      refine (List.map_id _).symm.trans (List.map_congr_left fun d hd => ?_)
      exact h.addressed.data_eq h.link.received hd
    rw [hdata, ← hdone, List.map_map]
    rfl
  · have hall := h.link.settled hsettled
    rw [← hdone, List.map_append, List.self_eq_append_right] at hall
    exact List.map_eq_nil_iff.mp hall

/-- Typed messages from end to end. Whatever the kernels' counts, whichever of
the two ways each message is sent and however sends, flushes and reads are
ordered, the callbacks at the other end run the methods of its dispatch on the
messages themselves: each once, in order, up to those still under way; and on all
of them once nothing is. -/
theorem messages_handled (hcodec : codec.Lossless) {σ φ : Type} (d : Dispatch σ φ) (fd : Fd)
    (ptr : ℕ) (fd' : Fd) (ptr' : ℕ) {es : List ChannelEvent}
    (hes : Runs.Steps (channelStep codec) (Reliable codec) (.start fd ptr fd' ptr') es) :
    ∃ done, done <+: es.filterMap ChannelEvent.given ∧
      Exec.forEach (d.onSocketReady codec)
          (channelRun codec (.start fd ptr fd' ptr') es).receiver.delivered =
        Exec.forEach (fun m => m.handler d (arrived codec fd' ptr' m)) done ∧
      ((channelRun codec (.start fd ptr fd' ptr') es).Settled →
        done = es.filterMap ChannelEvent.given) := by
  have h := (Carries.start codec fd ptr fd' ptr').run hes
  rw [List.nil_append] at h
  obtain ⟨done, rest, hsent, hdelivered, hsettled⟩ := h.delivered
  refine ⟨done, ⟨rest, hsent.symm⟩, ?_, fun hs => ?_⟩
  · rw [hdelivered, Exec.forEach_map]
    refine Exec.forEach_congr fun m hm => d.onSocketReady_message hcodec rfl ?_
    obtain ⟨b, hb⟩ := h.serialized m (hsent ▸ List.mem_append_left _ hm)
    simp only [arrived, Server.packetData, hb, Option.getD_some]
  · rw [hsent, hsettled hs, List.append_nil]

def nameKeeper : Dispatch (List Text) Unit where
  onAgentMrp _ packet := Exec.change (· ++ [packet.name])

/-- A heartbeat that waits in the buffer, and a message past it once it is flushed. -/
theorem messages_handled_both_ways :
    let mrp : Message := .agentMrp ⟨"a".toList, "k".toList⟩
    let es : List ChannelEvent := [.send .heartbeat [.accepted 2, .eagain], .pass (.upTo 9),
      .flush [.accepted 9], .sendDirect mrp [.accepted 4, .eagain, .accepted 9, .accepted 9],
      .pass (.upTo 9), .pass (.upTo 9), .pass .notYet, .pass (.upTo 9), .pass (.upTo 9),
      .pass (.upTo 9), .pass .notYet, .pass .notYet]
    Exec.forEach (nameKeeper.onSocketReady .sample)
        (channelRun .sample (.start 5 0 6 1) es).receiver.delivered =
      Exec.forEach (fun m => m.handler nameKeeper (arrived .sample 6 1 m)) [.heartbeat, mrp] := by
  intro mrp es
  have hes : Runs.Steps (channelStep .sample) (Reliable .sample) (.start 5 0 6 1) es := by
    decide +kernel
  have hsettled : (channelRun .sample (.start 5 0 6 1) es).Settled := by
    unfold Link.Settled
    decide +kernel
  obtain ⟨done, -, hrun, hall⟩ := messages_handled Codec.sample_lossless nameKeeper 5 0 6 1 hes
  rw [hrun, hall hsettled]
  rfl

end VNet.Network
