import VNet.Server

namespace VNet.Conductor
open Protocol NetQueue

inductive Role
  | unknown
  | switchConn
  | agentConn
  deriving DecidableEq, Repr

structure Peer where
  role : Role := .unknown
  name : Text := []
  authKey : Text := []
  network : Text := []
  swPort : UInt16 := 0
  swIpv4 : UInt32 := 0
  connectedAtMs : ℤ := 0
  deriving DecidableEq, Repr

structure PendingTokenInfo where
  agentName : Text
  switchName : Text
  createdAtMs : ℤ
  token : UInt64
  deriving DecidableEq, Repr

/-- `ConductorState`; of `rng` the tokens drawn so far, with the times. -/
structure ConductorState where
  switches : List ℕ
  agents : List ℕ
  pendingTokens : List PendingTokenInfo
  rrIndex : ℕ
  drawn : List (UInt64 × ℤ)
  deriving DecidableEq, Repr

abbrev Program := Server ConductorState Peer

abbrev Run (α : Type) := Server.Run ConductorState Peer α

/-- The answers of the clocks, of `getpeername`, of `rng` and of the two sends
to one callback. -/
structure Answers where
  now : ℤ
  nowMs : ℤ
  peer : Option UInt32
  token : UInt64
  toAgent : Bool
  toSwitch : Bool
  deriving DecidableEq, Repr

/-- `sizeof(size_t)` is 8. -/
def sizeRange : ℕ := 2 ^ 64

def reachable (agentNetwork : Text) (sw : ConnInfo Peer) : Bool :=
  sw.peer.network = agentNetwork || sw.peer.network = "::internet".toList

/-- The loop of `pick_switch` from the rounds `is` on, then the fallback. -/
def pickFrom (agentNetwork : Text) (switches : List ℕ) (start : ℕ) : List ℕ → Run ℕ
  | [] => do
    Server.modify fun g => { g with rrIndex := (start + 1) % sizeRange }
    pure (switches.getD (start % switches.length) 0)
  | i :: is => do
    let idx := (start + i) % sizeRange % switches.length
    let sw ← Server.deref (switches.getD idx 0)
    if reachable agentNetwork sw then
      Server.modify fun g => { g with rrIndex := (idx + 1) % sizeRange }
      pure (switches.getD idx 0)
    else pickFrom agentNetwork switches start is

def pickSwitch (agentNetwork : Text) : Run (Option ℕ) := do
  let g ← Exec.look Server.state
  if g.switches = [] then pure none
  else
    let sw ← pickFrom agentNetwork g.switches g.rrIndex (List.range g.switches.length)
    pure (some sw)

def ConductorState.removeSwitch (g : ConductorState) (p : ℕ) (name : Text) : ConductorState :=
  { g with
    switches := g.switches.filter (· ≠ p)
    pendingTokens := g.pendingTokens.filter fun t => t.switchName ≠ name }

def ConductorState.removeAgent (g : ConductorState) (p : ℕ) : ConductorState :=
  { g with agents := g.agents.filter (· ≠ p) }

/-- What `onSwitchMIP` writes into the `ConnInfo`. -/
def switchInfo (a : Answers) (data : SocketData) (pkt : PacketSwitchMip) (info : ConnInfo Peer) :
    ConnInfo Peer :=
  { info with
    fd := data.fd
    peer := { info.peer with
      role := .switchConn
      name := pkt.name
      authKey := pkt.authKey
      network := pkt.network
      swPort := pkt.port.toUInt16
      connectedAtMs := a.nowMs
      swIpv4 := a.peer.getD info.peer.swIpv4 } }

def onSwitchMip (a : Answers) (data : SocketData) (pkt : PacketSwitchMip) : Run Unit := do
  Server.assign data.ptrData (switchInfo a data pkt)
  Server.modify fun g => { g with switches := g.switches ++ [data.ptrData] }

/-- `onAgentMIP` once a switch is chosen. -/
def assignSwitch (codec : Codec) (a : Answers) (data : SocketData) (pkt : PacketAgentMip) (p : ℕ) :
    Run Unit := do
  Server.modify fun g => { g with drawn := g.drawn ++ [(a.token, a.now)] }
  let sw ← Server.deref p
  let toAgent ← Server.send data.ptrData data.fd .connectToSwitch
    (codec.connectToSwitch.serializeToString
      ⟨sw.peer.name, sw.peer.swIpv4, a.token, sw.peer.swPort.toUInt32⟩) a.toAgent
  if toAgent then
    let toSwitch ← Server.send p sw.fd .agentConnectionToken
      (codec.agentConnectionToken.serializeToString ⟨pkt.name, a.token⟩) a.toSwitch
    if toSwitch then
      Server.modify fun g =>
        { g with
          pendingTokens := g.pendingTokens ++ [⟨pkt.name, sw.peer.name, a.nowMs, a.token⟩]
          agents := g.agents ++ [data.ptrData] }
    else pure ()
  else pure ()

/-- What `onAgentMIP` writes into the `ConnInfo`. -/
def agentInfo (a : Answers) (data : SocketData) (pkt : PacketAgentMip) (info : ConnInfo Peer) :
    ConnInfo Peer :=
  { info with
    fd := data.fd
    peer := { info.peer with
      role := .agentConn
      name := pkt.name
      authKey := pkt.authKey
      network := pkt.network
      connectedAtMs := a.nowMs } }

def onAgentMip (codec : Codec) (a : Answers) (data : SocketData) (pkt : PacketAgentMip) :
    Run Unit := do
  Server.assign data.ptrData (agentInfo a data pkt)
  let sw ← pickSwitch pkt.network
  match sw with
  | none => Server.queueClose data.fd
  | some p => assignSwitch codec a data pkt p

/-- What `onAgentMRP` writes into the `ConnInfo`. -/
def mrpInfo (a : Answers) (data : SocketData) (pkt : PacketAgentMrp) (info : ConnInfo Peer) :
    ConnInfo Peer :=
  { info with
    fd := data.fd
    peer := { info.peer with
      role := .agentConn
      name := pkt.name
      authKey := pkt.authKey
      connectedAtMs := a.nowMs } }

def onAgentMrp (a : Answers) (data : SocketData) (pkt : PacketAgentMrp) : Run Unit := do
  Server.assign data.ptrData (mrpInfo a data pkt)
  Server.modify fun g => { g with agents := g.agents ++ [data.ptrData] }

def onClose (data : CloseData) : Run Unit :=
  if data.ptrData = 0 then pure ()
  else do
    let info ← Server.deref data.ptrData
    match info.peer.role with
    | .switchConn => Server.modify fun g => g.removeSwitch data.ptrData info.peer.name
    | .agentConn => Server.modify fun g => g.removeAgent data.ptrData
    | .unknown => pure ()
    Server.delete data.ptrData

def dispatch (codec : Codec) (a : Answers) : Dispatch Program Server.Fault where
  onSwitchMip := onSwitchMip a
  onAgentMip := onAgentMip codec a
  onAgentMrp := onAgentMrp a
  onClose := onClose

def sendHeartbeats (now : ℤ) (ok : Fd → Bool) : Run Unit := do
  let g ← Exec.look Server.state
  Exec.forEach (Server.tryHb now ok) (g.switches ++ g.agents)

def dumpInfo (p : ℕ) : Run Unit := do
  let _ ← Server.deref p
  pure ()

/-- `write_dump`, as far as it reads `ConnInfo`s. -/
def writeDump : Run Unit := do
  let g ← Exec.look Server.state
  Exec.forEach dumpInfo (g.switches ++ g.agents)

/-- What happens to the conductor in its event loop, with the answers of the
clocks and of the kernel. -/
inductive Event
  | accept (fd : Fd) (now : ℤ) (put : Bool)
  | packet (data : SocketData) (answers : Answers)
  | closed (data : CloseData)
  | sendHeartbeats (now : ℤ) (ok : Fd → Bool)
  | writeDump

def Answers.none : Answers := ⟨0, 0, Option.none, 0, false, false⟩

def handle (codec : Codec) : Event → Run Unit
  | .accept fd now put => Server.accept fd ⟨fd, now, {}⟩ put
  | .packet data a => Server.socketReady codec (dispatch codec a) data
  | .closed data => Server.socketClosed (dispatch codec .none) data
  | .sendHeartbeats now ok => sendHeartbeats now ok
  | .writeDump => writeDump

def step (codec : Codec) (s : Program) (e : Event) : Program := (handle codec e s).2

abbrev run (codec : Codec) (s : Program) (es : List Event) : Program := Runs.run (step codec) s es

def start : Program where
  state := ⟨[], [], [], 0, []⟩
  infos := ∅
  nextInfo := 1
  queue := ∅
  sent := []

end VNet.Conductor
