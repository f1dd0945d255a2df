import VNet.Common.Handshake
import VNet.Conductor.Transitions
import VNet.Lib.Channels
import VNet.Switch.Tokens

namespace VNet.Network
open Protocol NetQueue

abbrev Packet := PacketType × Bytes

inductive Client
  | agent (a : ℕ)
  | switch (s : ℕ)
  deriving DecidableEq, Repr

inductive Listener
  | conductor
  | switch (s : ℕ)
  deriving DecidableEq, Repr

structure Ends where
  client : Client
  server : Listener
  deriving DecidableEq, Repr

abbrev Conns := Connections Ends Packet

structure AgentConfig where
  name : Text
  authKey : Text
  deriving DecidableEq, Repr

structure SwitchConfig where
  name : Text
  authKey : Text
  port : UInt16
  ipv4 : UInt32
  deriving DecidableEq, Repr

structure Setup where
  codec : Codec
  agent : ℕ → AgentConfig
  switch : ℕ → SwitchConfig

/-- Where `main` of an agent is, with the connections it has open and the
assignment it has got. -/
inductive Phase
  | notStarted
  | waiting (cdt : ℕ)
  | assigned (cdt : ℕ) (assignment : PacketConnectToSwitch)
  | authenticating (cdt sw : ℕ) (assignment : PacketConnectToSwitch)
  | running (cdt sw : ℕ) (assignment : PacketConnectToSwitch)
  | exited
  deriving DecidableEq, Repr

/-- A running switch: its program, and the connections behind its descriptors. -/
structure SwitchNode where
  program : Switch.Program
  fds : Fd → Option ℕ

inductive SwitchStatus
  | notStarted
  | running (node : SwitchNode)
  | stopped

/-- All programs, and all connections ever opened; `backlog` are those not
accepted yet. -/
structure World where
  clock : ℤ
  conductor : Conductor.Program
  conductorFds : Fd → Option ℕ
  switches : ℕ → SwitchStatus
  agents : ℕ → Phase
  conns : Conns
  nextConn : ℕ
  backlog : List ℕ

def start (clock : ℤ) : World where
  clock := clock
  conductor := Conductor.start
  conductorFds _ := none
  switches _ := .notStarted
  agents _ := .notStarted
  conns _ := none
  nextConn := 0
  backlog := []

def World.openConn (w : World) (ends : Ends) (first : List Packet) : World :=
  { w with
    conns := Function.update w.conns w.nextConn (some ⟨ends, ⟨[], first⟩, .empty⟩)
    nextConn := w.nextConn + 1
    backlog := w.backlog ++ [w.nextConn] }

theorem World.openConn_conns (w : World) (ends : Ends) (first : List Packet) :
    (w.openConn ends first).conns w.nextConn = some ⟨ends, ⟨[], first⟩, .empty⟩ :=
  Function.update_self _ _ _

def firstPacket (type : PacketType) (body : Option Bytes) (sent : Bool) : List Packet :=
  if sent then (body.map fun b => (type, b)).toList else []

theorem mem_firstPacket {type : PacketType} {body : Option Bytes} {sent : Bool} {x : Packet}
    (h : x ∈ firstPacket type body sent) : x.1 = type ∧ body = some x.2 := by
  unfold firstPacket at h
  split_ifs at h
  · rw [Option.mem_toList, Option.map_eq_some_iff] at h
    obtain ⟨b, hb, rfl⟩ := h
    exact ⟨rfl, hb⟩
  · simp at h

def World.Waiting (w : World) (id : ℕ) (server : Listener) : Prop :=
  id ∈ w.backlog ∧ (w.conns id).map (fun c => c.ends.server) = some server

instance (w : World) (id : ℕ) (server : Listener) : Decidable (w.Waiting id server) :=
  inferInstanceAs (Decidable (_ ∧ _))

/-- The packets among a program's calls that went out, by connection. -/
def posts (fds : Fd → Option ℕ) (calls : List SendCall) : List (ℕ × Packet) :=
  calls.filterMap fun c => if c.ok then (fds c.fd).map fun id => (id, (c.type, c.body)) else none

def newCalls {σ ρ : Type} (s s' : Server σ ρ) : List SendCall := s'.sent.drop s.sent.length

def World.conductorStep (setup : Setup) (w : World) (k : Conns) (e : Conductor.Event) : World :=
  let program := Conductor.step setup.codec w.conductor e
  { w with
    conductor := program
    conns := k.postAll (fun _ => .server)
      (posts w.conductorFds (newCalls w.conductor program)) }

def peerIpv4 (setup : Setup) : Client → UInt32
  | .agent _ => 0
  | .switch s => (setup.switch s).ipv4

/-- A packet that a queue hands over next: the connection, the `ptr` it was put
in with, and the packet. -/
structure Delivery where
  conn : ℕ
  ends : Ends
  ptr : ℕ
  packet : Packet
  deriving DecidableEq, Repr

def delivery (k : Conns) (queue : FiniteMap Fd ℕ) (fds : Fd → Option ℕ) (side : Ends → Side)
    (fd : Fd) : Option Delivery := do
  let ptr ← queue.lookup fd
  let conn ← fds fd
  let c ← k conn
  let packet ← (c.out (side c.ends)).inFlight.head?
  pure ⟨conn, c.ends, ptr, packet⟩

theorem delivery_eq_some {k : Conns} {queue : FiniteMap Fd ℕ} {fds : Fd → Option ℕ}
    {side : Ends → Side} {fd : Fd} {d : Delivery} (h : delivery k queue fds side fd = some d) :
    queue.lookup fd = some d.ptr ∧ fds fd = some d.conn ∧ ∃ c rest, k d.conn = some c ∧
      c.ends = d.ends ∧ (c.out (side d.ends)).inFlight = d.packet :: rest := by
  simp only [delivery, Option.bind_eq_bind, Option.bind_eq_some_iff, Option.pure_def,
    Option.some.injEq] at h
  obtain ⟨ptr, hptr, conn, hconn, c, hc, packet, hpacket, rfl⟩ := h
  obtain ⟨rest, hrest⟩ := List.head?_eq_some_iff.mp hpacket
  exact ⟨hptr, hconn, c, rest, hc, rfl, hrest⟩

/-- What is asked besides the clock and the peer's address. -/
structure ConductorAnswers where
  nowMs : ℤ
  named : Bool
  token : UInt64
  toAgent : Bool
  toSwitch : Bool
  deriving DecidableEq, Repr

def World.conductorAccept (setup : Setup) (w : World) (id : ℕ) (fd : Fd) (put : Bool) : World :=
  if w.Waiting id .conductor ∧ 0 ≤ fd ∧ w.conductor.queue.lookup fd = none then
    World.conductorStep setup
      { w with
        conductorFds := Function.update w.conductorFds fd (some id)
        backlog := w.backlog.filter (· ≠ id) }
      w.conns (.accept fd w.clock put)
  else w

def World.conductorPacket (setup : Setup) (w : World) (fd : Fd) (a : ConductorAnswers) : World :=
  match delivery w.conns w.conductor.queue w.conductorFds (fun _ => .client) fd with
  | none => w
  | some d =>
    w.conductorStep setup (w.conns.take d.conn .client)
      (.packet (Server.packetData fd d.ptr d.packet.1 d.packet.2)
        ⟨w.clock, a.nowMs, if a.named then some (peerIpv4 setup d.ends.client) else none, a.token,
          a.toAgent, a.toSwitch⟩)

def switchSide (s : ℕ) (ends : Ends) : Side := if ends.client = .switch s then .client else .server

def switchPeer (s : ℕ) (ends : Ends) : Side := if ends.client = .switch s then .server else .client

def World.switchStep (setup : Setup) (w : World) (s : ℕ) (node : SwitchNode) (k : Conns)
    (e : Switch.Event) : World :=
  let program := Switch.step setup.codec node.program e
  { w with
    switches := Function.update w.switches s (.running { node with program := program })
    conns := k.postAll (switchSide s) (posts node.fds (newCalls node.program program)) }

/-- Step 1 of the switch's `main`: connect to the conductor and send
`SWITCH_MIP`. -/
def World.startSwitch (setup : Setup) (w : World) (s : ℕ) (cdtSock : Fd) (sent : Bool) : World :=
  match w.switches s with
  | .notStarted =>
    let body := setup.codec.switchMip.serializeToString
      ⟨(setup.switch s).name, (setup.switch s).authKey, "::internet".toList,
        (setup.switch s).port.toUInt32⟩
    let opened := w.openConn ⟨.switch s, .conductor⟩ (firstPacket .switchMip body sent)
    { opened with
      switches := Function.update w.switches s (if sent && body.isSome then
        .running ⟨Switch.start cdtSock w.clock,
          Function.update (fun _ => none) cdtSock (some w.nextConn)⟩
        else .stopped) }
  | _ => w

def World.switchAccept (setup : Setup) (w : World) (s id : ℕ) (fd : Fd) (put : Bool) : World :=
  match w.switches s with
  | .running node =>
    if w.Waiting id (.switch s) ∧ 0 ≤ fd ∧ node.program.queue.lookup fd = none then
      World.switchStep setup { w with backlog := w.backlog.filter (· ≠ id) } s
        { node with fds := Function.update node.fds fd (some id) } w.conns (.accept fd w.clock put)
    else w
  | _ => w

def World.switchDelivery (w : World) (s : ℕ) (node : SwitchNode) (fd : Fd) : Option Delivery :=
  delivery w.conns node.program.queue node.fds (switchPeer s) fd

def World.switchEvent (w : World) (fd : Fd) (ok : Bool) (d : Delivery) : Switch.Event :=
  .packet (Server.packetData fd d.ptr d.packet.1 d.packet.2) w.clock ok

def World.switchPacket (setup : Setup) (w : World) (s : ℕ) (fd : Fd) (ok : Bool) : World :=
  match w.switches s with
  | .running node =>
    match w.switchDelivery s node fd with
    | none => w
    | some d =>
      w.switchStep setup s node (w.conns.take d.conn (switchPeer s d.ends)) (w.switchEvent fd ok d)
  | _ => w

def World.switchLocal (setup : Setup) (w : World) (s : ℕ) (e : Switch.Event) : World :=
  match w.switches s with
  | .running node => w.switchStep setup s node w.conns e
  | _ => w

/-- Whether `read_protobuf_packet` takes this packet: heartbeats are skipped,
any other type than the expected one fails, no bytes are the default message. -/
inductive ReadPacket (M : Type)
  | skipped
  | failed
  | message (m : M)

def readProtobufPacket {M : Type} (c : MessageCodec M) (default : M) (expected : PacketType)
    (packet : Packet) : ReadPacket M :=
  if packet.1 = .heartbeat then .skipped
  else if packet.1 ≠ expected then .failed
  else if packet.2 = [] then .message default
  else match c.parseFromArray packet.2 with
    | some m => .message m
    | none => .failed

theorem readProtobufPacket_eq_message {M : Type} {c : MessageCodec M} {default m : M}
    {expected : PacketType} {packet : Packet} :
    readProtobufPacket c default expected packet = .message m ↔ packet.1 ≠ .heartbeat ∧
      packet.1 = expected ∧
      (if packet.2 = [] then some default else c.parseFromArray packet.2) = some m := by
  unfold readProtobufPacket
  by_cases hskip : packet.1 = .heartbeat
  · simp [hskip]
  · by_cases htype : packet.1 = expected
    · rw [if_neg hskip, if_neg (not_not_intro htype)]
      by_cases hempty : packet.2 = []
      · simp [htype ▸ hskip, htype, hempty]
      · cases c.parseFromArray packet.2 <;> simp [htype ▸ hskip, htype, hempty]
    · simp [hskip, htype]

theorem readProtobufPacket_eq_skipped {M : Type} {c : MessageCodec M} {default : M}
    {expected : PacketType} {packet : Packet} :
    readProtobufPacket c default expected packet = .skipped ↔ packet.1 = .heartbeat := by
  unfold readProtobufPacket
  split_ifs with hskip htype hempty
  · simp [hskip]
  · simp [hskip]
  · simp [hskip]
  · cases c.parseFromArray packet.2 <;> simp [hskip]

/-- What the blocking call finds in a stream is found by looking at its packets
one at a time. -/
theorem answers_iff_message {M : Type} {c : MessageCodec M} {default m : M} {expected : PacketType}
    (hexp : expected ≠ .heartbeat) {ms rest : List Packet} :
    Common.Answers c default expected ms m rest ↔ ∃ beats packet, ms = beats ++ packet :: rest ∧
      (∀ q ∈ beats, readProtobufPacket c default expected q = .skipped) ∧
      readProtobufPacket c default expected packet = .message m := by
  simp only [readProtobufPacket_eq_skipped, readProtobufPacket_eq_message]
  constructor
  · rintro ⟨beats, body, hms, hbeats, hbody⟩
    exact ⟨beats, (expected, body), hms, hbeats, hexp, rfl, hbody⟩
  · rintro ⟨beats, ⟨type, body⟩, hms, hbeats, -, rfl, hbody⟩
    exact ⟨beats, body, hms, hbeats, hbody⟩

def World.setPhase (w : World) (a : ℕ) (phase : Phase) : World :=
  { w with agents := Function.update w.agents a phase }

/-- Step 1 of the agent's `main`: connect to the conductor and send
`AGENT_MIP`. -/
def World.startAgent (setup : Setup) (w : World) (a : ℕ) (sent : Bool) : World :=
  match w.agents a with
  | .notStarted =>
    let body := setup.codec.agentMip.serializeToString
      ⟨(setup.agent a).name, (setup.agent a).authKey, "vnet.internal".toList⟩
    (w.openConn ⟨.agent a, .conductor⟩ (firstPacket .agentMip body sent)).setPhase a
      (if sent && body.isSome then .waiting w.nextConn else .exited)
  | _ => w

/-- Step 2: read the switch assignment. -/
def World.readAssignment (setup : Setup) (w : World) (a : ℕ) : World :=
  match w.agents a with
  | .waiting cdt =>
    match (w.conns cdt).bind fun c => c.toClient.inFlight.head? with
    | none => w
    | some packet =>
      World.setPhase { w with conns := w.conns.take cdt .server } a
        (match readProtobufPacket setup.codec.connectToSwitch ⟨[], 0, 0, 0⟩ .connectToSwitch
          packet with
        | .skipped => .waiting cdt
        | .failed => .exited
        | .message m => .assigned cdt m)
  | _ => w

/-- The assignment has the address this switch listens on. -/
def Leads (setup : Setup) (m : PacketConnectToSwitch) (s : ℕ) : Prop :=
  m.switchIpv4 = (setup.switch s).ipv4 ∧ m.switchPort.toUInt16 = (setup.switch s).port

instance (setup : Setup) (m : PacketConnectToSwitch) (s : ℕ) : Decidable (Leads setup m s) :=
  inferInstanceAs (Decidable (_ ∧ _))

/-- Step 3: connect to the address in the assignment, where `s` is listening,
and send `AUTH_CONNECT_TO_SWITCH`. -/
def World.connectSwitch (setup : Setup) (w : World) (a s : ℕ) (sent : Bool) : World :=
  match w.agents a, w.switches s with
  | .assigned cdt m, .running _ =>
    if Leads setup m s then
      let body := setup.codec.authConnectToSwitch.serializeToString ⟨m.connectionToken⟩
      (w.openConn ⟨.agent a, .switch s⟩ (firstPacket .authConnectToSwitch body sent)).setPhase a
        (if sent && body.isSome then .authenticating cdt w.nextConn m else .exited)
    else w
  | _, _ => w

/-- The rest of step 3: read the acceptance. -/
def World.readAccepted (setup : Setup) (w : World) (a : ℕ) : World :=
  match w.agents a with
  | .authenticating cdt sw m =>
    match (w.conns sw).bind fun c => c.toClient.inFlight.head? with
    | none => w
    | some packet =>
      World.setPhase { w with conns := w.conns.take sw .server } a
        (match readProtobufPacket setup.codec.connectionAccepted ⟨⟩ .connectionAccepted packet with
        | .skipped => .authenticating cdt sw m
        | .failed => .exited
        | .message _ => .running cdt sw m)
  | _ => w

/-- Step 4: in its event loop the agent sends heartbeats, and what it gets is
ignored. -/
def World.agentHeartbeats (w : World) (a : ℕ) (toConductor toSwitch : Bool) : World :=
  match w.agents a with
  | .running cdt sw _ =>
    { w with
      conns := w.conns.postAll (fun _ => .client)
        ((if toConductor then [(cdt, (.heartbeat, []))] else []) ++
          if toSwitch then [(sw, (.heartbeat, []))] else []) }
  | _ => w

inductive Event
  | tick (ns : ℕ)
  | startSwitch (s : ℕ) (cdtSock : Fd) (sent : Bool)
  | stopSwitch (s : ℕ)
  | switchAccept (s id : ℕ) (fd : Fd) (put : Bool)
  | switchPacket (s : ℕ) (fd : Fd) (ok : Bool)
  | switchClosed (s : ℕ) (data : CloseData)
  | switchExpire (s : ℕ)
  | switchHeartbeats (s : ℕ) (ok : Fd → Bool)
  | conductorAccept (id : ℕ) (fd : Fd) (put : Bool)
  | conductorPacket (fd : Fd) (answers : ConductorAnswers)
  | conductorClosed (data : CloseData)
  | conductorHeartbeats (ok : Fd → Bool)
  | startAgent (a : ℕ) (sent : Bool)
  | readAssignment (a : ℕ)
  | connectSwitch (a s : ℕ) (sent : Bool)
  | readAccepted (a : ℕ)
  | agentHeartbeats (a : ℕ) (toConductor toSwitch : Bool)
  | stopAgent (a : ℕ)

def step (setup : Setup) (w : World) : Event → World
  | .tick ns => { w with clock := w.clock + ns }
  | .startSwitch s cdtSock sent => w.startSwitch setup s cdtSock sent
  | .stopSwitch s => { w with switches := Function.update w.switches s .stopped }
  | .switchAccept s id fd put => w.switchAccept setup s id fd put
  | .switchPacket s fd ok => w.switchPacket setup s fd ok
  | .switchClosed s data => w.switchLocal setup s (.closed data)
  | .switchExpire s => w.switchLocal setup s (.expireTokens w.clock)
  | .switchHeartbeats s ok => w.switchLocal setup s (.sendHeartbeats w.clock ok)
  | .conductorAccept id fd put => w.conductorAccept setup id fd put
  | .conductorPacket fd a => w.conductorPacket setup fd a
  | .conductorClosed data => w.conductorStep setup w.conns (.closed data)
  | .conductorHeartbeats ok => w.conductorStep setup w.conns (.sendHeartbeats w.clock ok)
  | .startAgent a sent => w.startAgent setup a sent
  | .readAssignment a => w.readAssignment setup a
  | .connectSwitch a s sent => w.connectSwitch setup a s sent
  | .readAccepted a => w.readAccepted setup a
  | .agentHeartbeats a toConductor toSwitch => w.agentHeartbeats a toConductor toSwitch
  | .stopAgent a => w.setPhase a .exited

abbrev run (setup : Setup) (clock : ℤ) (es : List Event) : World :=
  Runs.run (step setup) (start clock) es

/-- The event marks, at switch `s`, connection `id` authenticated with name `n`
for showing token `t`. -/
def Authenticates (setup : Setup) (w : World) (e : Event) (s id : ℕ) (t : UInt64) (n : Text) :
    Prop :=
  ∃ fd ok node d, e = .switchPacket s fd ok ∧ w.switches s = .running node ∧
    w.switchDelivery s node fd = some d ∧ d.conn = id ∧
    Switch.Marks setup.codec node.program (w.switchEvent fd ok d) d.ptr t n

end VNet.Network
